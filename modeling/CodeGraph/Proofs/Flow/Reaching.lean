import CodeGraph.Flow.Reaching

/-!
# Which definitions reach a statement

A definition reaches a statement when some path of control leads there from where the definition is
made, and nothing on the way writes the variable again. `ClearPath` are such paths. `Reaching.before`
finds exactly the definitions with such a path (`Reaching.mem_before`): what a list of accesses
leaves behind is decided by its last write of each variable (`mem_transfer`), and the search marks
what can be reached, nothing else (`closure_iff`).
-/

namespace CodeGraph

/-! ## The search -/

/-- `Hops successors a b`: following successors leads from `a` to `b` in any number of steps. -/
inductive Hops (successors : Nat → List Nat) (a : Nat) : Nat → Prop
  | here : Hops successors a a
  | more {b c : Nat} : Hops successors a b → c ∈ successors b → Hops successors a c

theorem Hops.front {successors : Nat → List Nat} {a b c : Nat} (first : b ∈ successors a)
    (rest : Hops successors b c) : Hops successors a c := by
  induction rest with
  | here => exact .more .here first
  | more _ step ih => exact .more ih step

/-- What is marked at the start stays marked. -/
theorem closure_keeps (successors : Nat → List Nat) (pending : List Nat) (marked : Array Bool)
    {i : Nat} (before : marked[i]? = some true) :
    (closure successors pending marked)[i]? = some true := by
  fun_induction closure successors pending marked with
  | case1 marked => exact before
  | case2 marked next rest inside seen ih => exact ih before
  | case3 marked next rest inside seen ih =>
    refine ih ?_
    rw [Array.getElem?_set]
    split
    · rfl
    · exact before
  | case4 marked next rest outside ih => exact ih before

/-- What the search marks can be reached from what was to be looked at. -/
theorem closure_sound (successors : Nat → List Nat) (pending : List Nat) (marked : Array Bool)
    {i : Nat} (found : (closure successors pending marked)[i]? = some true) :
    marked[i]? = some true ∨ ∃ start ∈ pending, Hops successors start i := by
  fun_induction closure successors pending marked with
  | case1 marked => exact .inl found
  | case2 marked next rest inside seen ih =>
    rcases ih found with before | ⟨start, there, hops⟩
    · exact .inl before
    · exact .inr ⟨start, List.mem_cons_of_mem _ there, hops⟩
  | case3 marked next rest inside seen ih =>
    rcases ih found with before | ⟨start, there, hops⟩
    · rw [Array.getElem?_set] at before
      split at before
      · next same => exact .inr ⟨next, List.mem_cons_self, same ▸ .here⟩
      · exact .inl before
    · rcases List.mem_append.1 there with new | old
      · exact .inr ⟨next, List.mem_cons_self, hops.front new⟩
      · exact .inr ⟨start, List.mem_cons_of_mem _ old, hops⟩
  | case4 marked next rest outside ih =>
    rcases ih found with before | ⟨start, there, hops⟩
    · exact .inl before
    · exact .inr ⟨start, List.mem_cons_of_mem _ there, hops⟩

/-- The successors of what is marked are marked or still to be looked at. -/
def Closed (successors : Nat → List Nat) (pending : List Nat) (marked : Array Bool) : Prop :=
  ∀ i : Nat, marked[i]? = some true → ∀ next ∈ successors i, next < marked.size →
    marked[next]? = some true ∨ next ∈ pending

theorem size_closure (successors : Nat → List Nat) (pending : List Nat) (marked : Array Bool) :
    (closure successors pending marked).size = marked.size := by
  fun_induction closure successors pending marked with
  | case1 marked => rfl
  | case2 marked next rest inside seen ih => exact ih
  | case3 marked next rest inside seen ih => rw [ih, Array.size_set]
  | case4 marked next rest outside ih => exact ih

theorem closure_pending (successors : Nat → List Nat) (pending : List Nat) (marked : Array Bool)
    {i : Nat} (there : i ∈ pending) (inside : i < marked.size) :
    (closure successors pending marked)[i]? = some true := by
  fun_induction closure successors pending marked with
  | case1 marked => cases there
  | case2 marked next rest within seen ih =>
    rcases List.mem_cons.1 there with rfl | later
    · refine closure_keeps successors rest marked ?_
      rw [Array.getElem?_eq_getElem inside, seen]
    · exact ih later inside
  | case3 marked next rest within seen ih =>
    rcases List.mem_cons.1 there with rfl | later
    · refine closure_keeps successors _ _ ?_
      rw [Array.getElem?_set, if_pos rfl]
    · exact ih (List.mem_append_right _ later) (by rw [Array.size_set]; exact inside)
  | case4 marked next rest outside ih =>
    rcases List.mem_cons.1 there with rfl | later
    · exact absurd inside outside
    · exact ih later inside

theorem closed_closure (successors : Nat → List Nat) (pending : List Nat) (marked : Array Bool)
    (closed : Closed successors pending marked) :
    Closed successors [] (closure successors pending marked) := by
  fun_induction closure successors pending marked with
  | case1 marked => exact closed
  | case2 marked next rest inside seen ih =>
    refine ih fun i held target step within => ?_
    rcases closed i held target step within with done | later
    · exact .inl done
    · rcases List.mem_cons.1 later with rfl | later
      · exact .inl (by rw [Array.getElem?_eq_getElem inside, seen])
      · exact .inr later
  | case3 marked next rest inside seen ih =>
    refine ih fun i held target step within => ?_
    rw [Array.size_set] at within
    rw [Array.getElem?_set] at held ⊢
    by_cases same : next = target
    · exact .inl (if_pos same)
    · rw [if_neg same]
      split at held
      · next here => exact .inr (List.mem_append_left _ (here ▸ step))
      · rcases closed i held target step within with done | later
        · exact .inl done
        · rcases List.mem_cons.1 later with rfl | later
          · exact absurd rfl same
          · exact .inr (List.mem_append_right _ later)
  | case4 marked next rest outside ih =>
    refine ih fun i held target step within => ?_
    rcases closed i held target step within with done | later
    · exact .inl done
    · rcases List.mem_cons.1 later with rfl | later
      · exact absurd within outside
      · exact .inr later

/-- From nothing marked, the search marks what can be reached below the bound. Whatever is beyond
the bound has no successors. -/
theorem closure_iff {successors : Nat → List Nat} {size : Nat}
    (bounded : ∀ i, size ≤ i → successors i = []) (pending : List Nat) (i : Nat) :
    (closure successors pending (Array.replicate size false))[i]? = some true ↔
      i < size ∧ ∃ start ∈ pending, Hops successors start i := by
  have same : (closure successors pending (Array.replicate size false)).size = size := by
    rw [size_closure, Array.size_replicate]
  constructor
  · intro found
    have inside := (Array.getElem?_eq_some_iff.1 found).1
    rcases closure_sound successors pending _ found with before | reached
    · rw [Array.getElem?_replicate] at before
      split at before <;> cases before
    · exact ⟨same ▸ inside, reached⟩
  · rintro ⟨inside, start, there, hops⟩
    have nothing : Closed successors pending (Array.replicate size false) := by
      intro j held
      rw [Array.getElem?_replicate] at held
      split at held <;> cases held
    have closed := closed_closure successors pending _ nothing
    induction hops with
    | here => exact closure_pending successors pending _ there (by simpa using inside)
    | @more b c before step ih =>
      have within : b < size := by
        rcases Nat.lt_or_ge b size with less | beyond
        · exact less
        · rw [bounded b beyond] at step
          cases step
      rcases closed b (ih within) c step (by rw [same]; exact inside) with done | later
      · exact done
      · cases later

/-! ## What accesses leave behind -/

/-- The site of the last write of a variable in a list of accesses. -/
def lastWrite? : List Access → Nat → Option Nat
  | [], _ => none
  | access :: rest, binding =>
    (lastWrite? rest binding).or
      (if access.defined? = some binding then some access.site else none)

/-- A definition is live behind a list of accesses: it is the last write of its variable, or the
variable is not written and the definition was live before. -/
def LiveAfter (before : Definition → Prop) (accesses : List Access) (definition : Definition) :
    Prop :=
  lastWrite? accesses definition.binding = some definition.site ∨
    lastWrite? accesses definition.binding = none ∧ before definition

namespace Definition

theorem mem_write {state : List Definition} {binding site : Nat} {definition : Definition} :
    definition ∈ write state binding site ↔
      definition = ⟨binding, site⟩ ∨ definition ∈ state ∧ definition.binding ≠ binding := by
  have others : definition ∈ state.filter (fun definition => definition.binding ≠ binding) ↔
      definition ∈ state ∧ definition.binding ≠ binding := by simp
  rw [write, List.mem_append, List.mem_cons, or_left_comm, ← List.mem_append,
    List.takeWhile_append_dropWhile, others]

theorem mem_transfer {state : List Definition} {accesses : List Access} {definition : Definition} :
    definition ∈ transfer state accesses ↔ LiveAfter (· ∈ state) accesses definition := by
  unfold LiveAfter
  induction accesses generalizing state with
  | nil => simp [transfer, lastWrite?]
  | cons access rest ih =>
    have next : transfer state (access :: rest) = transfer (step state access) rest := rfl
    rw [next, ih, lastWrite?]
    cases lastWrite? rest definition.binding with
    | some site => simp
    | none =>
      cases written : access.defined? with
      | none => simp [step, written]
      | some binding =>
        obtain ⟨own, site⟩ := definition
        by_cases same : binding = own
        · subst same
          simp [step, written, mem_write, eq_comm]
        · simp [step, written, mem_write, same, Ne.symm same]

theorem mem_eraseRepsBy_loop {α : Type} [BEq α] [LawfulBEq α] {x a : α} {rest found : List α} :
    x ∈ List.eraseRepsBy.loop (· == ·) a rest found ↔ x ∈ found ∨ x = a ∨ x ∈ rest := by
  induction rest generalizing a found with
  | nil => simp [List.eraseRepsBy.loop, or_comm]
  | cons b rest ih =>
    rw [List.eraseRepsBy.loop]
    split
    · next same =>
      obtain rfl := eq_of_beq same
      rw [ih, List.mem_cons]
      simp
    · rw [ih, List.mem_cons, List.mem_cons]
      simp [or_assoc, or_left_comm]

theorem mem_sorted {definitions : List Definition} {definition : Definition} :
    definition ∈ sorted definitions ↔ definition ∈ definitions := by
  have same : definition ∈ definitions.mergeSort notAfter ↔ definition ∈ definitions :=
    List.mem_mergeSort
  rw [sorted, ← same, List.eraseReps]
  cases definitions.mergeSort notAfter with
  | nil => rfl
  | cons first rest => simp [List.eraseRepsBy, mem_eraseRepsBy_loop]

end Definition

/-! ## Paths that leave a variable alone -/

/-- `ClearPath region control binding a b`: control can go from the start of statement `a` to the
start of statement `b` through statements that do not write the variable. -/
inductive ClearPath (region : Region) (control : Control) (binding a : Nat) : Nat → Prop
  | here : ClearPath region control binding a a
  | more {b c : Nat} : ClearPath region control binding a b →
      writes (region.accessesOf b) binding = false → c ∈ control.successors b →
      ClearPath region control binding a c

/-- A definition is live before a statement: it is left behind by some statement and reaches this
one, or it is live at the first statement and reaches this one from there. -/
def LiveBefore (region : Region) (control : Control) (entry : Definition → Prop)
    (definition : Definition) (s : Nat) : Prop :=
  (∃ maker next : Nat,
      lastWrite? (region.accessesOf maker) definition.binding = some definition.site ∧
      next ∈ control.successors maker ∧ ClearPath region control definition.binding next s) ∨
    ∃ first, control.entry = some first ∧
      LiveAfter entry region.entryAccesses.toList definition ∧
      ClearPath region control definition.binding first s

/-- A statement that writes has accesses. -/
theorem lt_of_lastWrite? {region : Region} {s binding site : Nat}
    (written : lastWrite? (region.accessesOf s) binding = some site) :
    s < region.accesses.size := by
  rcases Nat.lt_or_ge s region.accesses.size with less | beyond
  · exact less
  · have none : region.accessesOf s = [] := by
      rw [Region.accessesOf, Array.getElem?_eq_none beyond]
      rfl
    rw [none] at written
    cases written

namespace Reaching

/-- The successors that the search for a definition follows. -/
def onward (region : Region) (control : Control) (binding s : Nat) : List Nat :=
  if writes (region.accessesOf s) binding then [] else control.successors s

theorem hops_iff {region : Region} {control : Control} {binding a b : Nat} :
    Hops (onward region control binding) a b ↔ ClearPath region control binding a b := by
  constructor
  · intro hops
    induction hops with
    | here => exact .here
    | more _ step ih =>
      unfold onward at step
      split at step
      · cases step
      · next clear => exact .more ih (Bool.eq_false_iff.2 clear) step
  · intro path
    induction path with
    | here => exact .here
    | more _ clear step ih =>
      refine .more ih ?_
      rw [onward, clear]
      exact step

theorem mem_origins {region : Region} {control : Control} {entry : List Definition}
    {definition : Definition} {s : Nat} :
    s ∈ origins region control entry definition ↔
      (LiveAfter (· ∈ entry) region.entryAccesses.toList definition ∧ control.entry = some s) ∨
      ∃ maker, lastWrite? (region.accessesOf maker) definition.binding = some definition.site ∧
        s ∈ control.successors maker := by
  have made : ∀ maker, (left region maker).contains definition = true ↔
      lastWrite? (region.accessesOf maker) definition.binding = some definition.site := by
    intro maker
    rw [List.contains_iff_mem, left, Definition.mem_transfer, LiveAfter]
    simp
  have live : (start region entry).contains definition = true ↔
      LiveAfter (· ∈ entry) region.entryAccesses.toList definition := by
    rw [List.contains_iff_mem, start, Definition.mem_transfer]
  unfold origins
  rw [List.mem_append]
  refine or_congr ?_ ?_
  · split
    · next held => simp [live.1 held]
    · next held => simp [mt live.2 held]
  · simp only [List.mem_flatMap, List.mem_filter, List.mem_range, made]
    constructor
    · rintro ⟨maker, ⟨-, written⟩, step⟩
      exact ⟨maker, written, step⟩
    · rintro ⟨maker, written, step⟩
      exact ⟨maker, ⟨lt_of_lastWrite? written, written⟩, step⟩

/-- The search for one definition marks the statements before which it is live. -/
theorem reached_iff {region : Region} {control : Control}
    (bounded : ∀ s, region.accesses.size ≤ s → control.successors s = [])
    (entry : List Definition) (definition : Definition) (s : Nat) :
    (reached region control entry definition)[s]? = some true ↔
      s < region.accesses.size ∧ LiveBefore region control (· ∈ entry) definition s := by
  have beyond : ∀ i, region.accesses.size ≤ i →
      onward region control definition.binding i = [] := by
    intro i outside
    rw [onward, bounded i outside, ite_self]
  refine (closure_iff beyond _ s).trans (and_congr_right fun _ => ?_)
  simp only [mem_origins, hops_iff]
  constructor
  · rintro ⟨start, ⟨live, first⟩ | ⟨maker, written, step⟩, path⟩
    · exact .inr ⟨start, first, live, path⟩
    · exact .inl ⟨maker, start, written, step, path⟩
  · rintro (⟨maker, next, written, step, path⟩ | ⟨first, entered, live, path⟩)
    · exact ⟨next, .inr ⟨maker, written, step⟩, path⟩
    · exact ⟨first, .inl ⟨live, entered⟩, path⟩

theorem mem_candidates {region : Region} {control : Control} {entry : List Definition}
    {definition : Definition} {s : Nat}
    (live : LiveBefore region control (· ∈ entry) definition s) :
    definition ∈ candidates region entry := by
  rw [candidates, Definition.mem_sorted, List.mem_append, start, Definition.mem_transfer]
  rcases live with ⟨maker, next, written, -, -⟩ | ⟨first, -, live, -⟩
  · exact .inr (List.mem_flatMap.2 ⟨maker, List.mem_range.2 (lt_of_lastWrite? written),
      Definition.mem_transfer.2 (.inl written)⟩)
  · exact .inl live

/-- The definitions that are found to be live before a statement are those that are. -/
theorem mem_before {region : Region} {control : Control}
    (bounded : ∀ s, region.accesses.size ≤ s → control.successors s = [])
    {entry : List Definition} {s : Nat} {state : List Definition}
    (found : (before region control entry)[s]? = some state) (definition : Definition) :
    definition ∈ state ↔ LiveBefore region control (· ∈ entry) definition s := by
  simp only [before, List.getElem?_map] at found
  obtain ⟨place, there, rfl⟩ := Option.map_eq_some_iff.1 found
  obtain ⟨inside, rfl⟩ := List.getElem?_eq_some_iff.1 there
  rw [List.length_range] at inside
  have reached := reached_iff bounded entry definition s
  simp only [List.getElem_range, List.mem_filterMap, List.mem_map, Array.getD_eq_getD_getElem?]
  constructor
  · rintro ⟨row, ⟨other, -, rfl⟩, kept⟩
    split at kept
    · next marked =>
      obtain rfl := Option.some.inj kept
      refine (reached.1 ?_).2
      rw [Option.getD_eq_iff] at marked
      simpa using marked
    · cases kept
  · intro live
    refine ⟨_, ⟨definition, mem_candidates live, rfl⟩, ?_⟩
    simp only [reached.2 ⟨inside, live⟩]
    rfl

theorem length_before (region : Region) (control : Control) (entry : List Definition) :
    (before region control entry).length = region.accesses.size := by
  simp [before]

end Reaching

end CodeGraph

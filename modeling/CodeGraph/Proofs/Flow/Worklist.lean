import Mathlib.Data.List.Chain
import Mathlib.Data.List.ProdSigma
import CodeGraph.Flow.Worklist
import CodeGraph.Proofs.Flow.Loop
import CodeGraph.Proofs.Flow.Ordered
import CodeGraph.Proofs.Flow.Straight
import CodeGraph.Proofs.Halts

/-!
# The worklist finds the least solution

The sets of live definitions have to satisfy one equation for each statement: what is live before it
is what its predecessors leave behind, and what is live at the entry of the region if control begins
there (`Solves`). The worklist ends, and in the least solution (`Worklist.Consistent.least`). Two
invariants carry the argument. What has been worked out for a statement can only grow, for it was
worked out from sets that have only grown since (`Worklist.Consistent`). And it never exceeds a
solution, whichever one it is compared with (`Worklist.Below`).

The least solution is that of the paths (`ReachesAlong`), which is also what the search for one
definition at a time finds.
-/

namespace CodeGraph

/-! ## Solutions -/

/-- Sets of definitions satisfy the equations of a region, statement by statement. -/
def Solves (region : Region) (control : Control) (entry : List Definition)
    (live : Nat → Definition → Prop) : Prop :=
  ∀ s < region.accesses.size, ∀ definition, live s definition ↔
    (control.entry = some s ∧ definition ∈ Reaching.start region entry) ∨
      ∃ before ∈ control.predecessors s,
        LiveAfter (live before) (region.accessesOf before) definition

theorem LiveAfter.imp {before before' : Definition → Prop} {accesses : List Access}
    {definition : Definition} (after : LiveAfter before accesses definition)
    (imp : before definition → before' definition) : LiveAfter before' accesses definition :=
  after.imp_right fun ⟨unwritten, live⟩ => ⟨unwritten, imp live⟩

/-- Control goes between the statements of a region only. -/
structure Control.Within (control : Control) (region : Region) : Prop where
  size : control.transfers.size = region.accesses.size
  target_lt : ∀ s, ∀ next ∈ control.successors s, next < region.accesses.size

theorem Control.lt_of_mem_successors {control : Control} {s next : Nat}
    (step : next ∈ control.successors s) : s < control.transfers.size := by
  rcases Nat.lt_or_ge s control.transfers.size with less | beyond
  · exact less
  · rw [Control.successors, Control.transfersFrom, Array.getElem?_eq_none beyond] at step
    cases step

theorem Control.mem_predecessors {control : Control} {before s : Nat} :
    before ∈ control.predecessors s ↔ s ∈ control.successors before := by
  simp only [Control.predecessors, List.mem_filter, List.mem_range, List.contains_iff_mem]
  exact and_iff_right_of_imp Control.lt_of_mem_successors

variable {region : Region} {control : Control} {entry : List Definition}

/-- What is live along paths satisfies the equations. -/
theorem solves_liveBefore : Solves region control entry fun s definition =>
    LiveBefore region control (· ∈ entry) definition s := by
  intro s _ definition
  refine liveBefore_iff.trans ?_
  simp only [Reaching.start, Definition.mem_transfer, Control.mem_predecessors]

/-- What is live along paths is in every solution. -/
theorem Solves.of_liveBefore {live : Nat → Definition → Prop}
    (solves : Solves region control entry live) (within : control.Within region)
    {definition : Definition} {s : Nat} (inside : s < region.accesses.size)
    (before : LiveBefore region control (· ∈ entry) definition s) : live s definition := by
  have along : ∀ {a b : Nat}, ClearPath region control definition.binding a b →
      (a < region.accesses.size → live a definition) → b < region.accesses.size →
      live b definition := by
    intro a b path
    induction path with
    | here => exact fun held inside => held inside
    | @more b c _ clear step ih =>
      intro held inside
      have less : b < region.accesses.size := within.size ▸ Control.lt_of_mem_successors step
      exact (solves c inside definition).2 (.inr ⟨b, Control.mem_predecessors.2 step,
        .inr ⟨writes_eq_false_iff.1 clear, ih held less⟩⟩)
  rcases before with ⟨maker, next, written, step, path⟩ | ⟨first, entered, after, path⟩
  · refine along path (fun less => ?_) inside
    exact (solves next less definition).2
      (.inr ⟨maker, Control.mem_predecessors.2 step, .inl written⟩)
  · refine along path (fun less => ?_) inside
    exact (solves first less definition).2 (.inl ⟨entered, Definition.mem_transfer.2 after⟩)

/-! ## Paths -/

/-- A definition reaches a statement along a path, which is its first statement and the rest. Between
the ends of the path nothing writes the variable. The definition is the last write of the variable in
the first statement, or it is live where the region begins, at the first statement, and is not
overwritten there. -/
structure ReachesAlong (region : Region) (control : Control) (entry : List Definition)
    (definition : Definition) (s first : Nat) (rest : List Nat) : Prop where
  steps : (first :: rest).IsChain fun a b => b ∈ control.successors a
  last : (first :: rest).getLast? = some s
  clear : ∀ between ∈ rest.dropLast, writes (region.accessesOf between) definition.binding = false
  origin : (control.entry = some first ∧ definition ∈ Reaching.start region entry ∧
      (rest ≠ [] → writes (region.accessesOf first) definition.binding = false)) ∨
    rest ≠ [] ∧ lastWrite? (region.accessesOf first) definition.binding = some definition.site

/-- A clear path, statement by statement. -/
theorem clearPath_iff {binding a b : Nat} : ClearPath region control binding a b ↔
    ∃ rest : List Nat, (a :: rest).IsChain (fun a b => b ∈ control.successors a) ∧
      (a :: rest).getLast? = some b ∧
      ∀ between ∈ (a :: rest).dropLast, writes (region.accessesOf between) binding = false := by
  constructor
  · intro path
    induction path with
    | here => exact ⟨[], .singleton a, rfl, by simp⟩
    | @more b c _ clear step ih =>
      obtain ⟨rest, steps, last, each⟩ := ih
      refine ⟨rest ++ [c], ?_, by rw [← List.cons_append, List.getLast?_concat], ?_⟩
      · rw [← List.cons_append, List.isChain_append]
        refine ⟨steps, .singleton c, fun x is y is' => ?_⟩
        obtain rfl := Option.some.inj (last.symm.trans is)
        obtain rfl := Option.some.inj is'
        exact step
      · rw [← List.cons_append, List.dropLast_concat, ← List.dropLast_append_getLast? b last]
        intro between inside
        rcases List.mem_append.1 inside with inside | inside
        · exact each between inside
        · rwa [List.mem_singleton.1 inside]
  · rintro ⟨rest, steps, last, each⟩
    induction rest generalizing a with
    | nil =>
      obtain rfl := Option.some.inj last
      exact .here
    | cons next rest ih =>
      obtain ⟨step, steps⟩ := List.isChain_cons_cons.1 steps
      rw [List.getLast?_cons_cons] at last
      rw [List.dropLast_cons_cons] at each
      exact .front (each a List.mem_cons_self) step
        (ih steps last fun between inside => each between (List.mem_cons_of_mem _ inside))

/-- What is live before a statement reaches it along some path. -/
theorem liveBefore_iff_reachesAlong {definition : Definition} {s : Nat} :
    LiveBefore region control (· ∈ entry) definition s ↔
      ∃ first rest, ReachesAlong region control entry definition s first rest := by
  simp only [LiveBefore, clearPath_iff, ← Definition.mem_transfer]
  constructor
  · rintro (⟨maker, next, written, step, rest, steps, last, clear⟩ |
      ⟨first, entered, after, rest, steps, last, clear⟩)
    · exact ⟨maker, next :: rest, .cons_cons step steps, by rwa [List.getLast?_cons_cons], clear,
        .inr ⟨List.cons_ne_nil _ _, written⟩⟩
    · cases rest with
      | nil => exact ⟨first, [], steps, last, by simp, .inl ⟨entered, after, fun more => absurd rfl more⟩⟩
      | cons next rest =>
        rw [List.dropLast_cons_cons] at clear
        exact ⟨first, next :: rest, steps, last,
          fun between inside => clear between (List.mem_cons_of_mem _ inside),
          .inl ⟨entered, after, fun _ => clear first List.mem_cons_self⟩⟩
  · rintro ⟨first, rest, steps, last, clear, ⟨entered, after, unwritten⟩ | ⟨more, written⟩⟩
    · refine .inr ⟨first, entered, after, rest, steps, last, ?_⟩
      cases rest with
      | nil => simp
      | cons next rest =>
        rw [List.dropLast_cons_cons]
        exact List.forall_mem_cons.2 ⟨unwritten (List.cons_ne_nil _ _), clear⟩
    · cases rest with
      | nil => exact absurd rfl more
      | cons next rest =>
        obtain ⟨step, steps⟩ := List.isChain_cons_cons.1 steps
        rw [List.getLast?_cons_cons] at last
        exact .inl ⟨first, next, written, step, rest, steps, last, clear⟩

namespace Worklist

/-! ## One step -/

/-- The definitions live before a statement, as last worked out. -/
def inOf (work : Worklist) (s : Nat) : List Definition := work.ins[s]?.getD []

theorem mem_input {outs : Array (Option (List Definition))} {s : Nat} {definition : Definition} :
    definition ∈ input region control entry outs s ↔
      (control.entry = some s ∧ definition ∈ Reaching.start region entry) ∨
        ∃ before ∈ control.predecessors s, definition ∈ out outs before := by
  rw [input, Definition.mem_sorted, List.mem_append, List.mem_flatMap]
  refine or_congr_left ?_
  split
  · next here => simp [here]
  · next elsewhere => simp [elsewhere]

/-- The statements that wait are those that are marked, and each waits once. -/
structure Marked (size : Nat) (work : Worklist) : Prop where
  size : work.queued.size = size
  nodup : work.queue.Nodup
  mem_iff : ∀ s, s ∈ work.queue ↔ work.queued[s]? = some true

namespace Marked

variable {size : Nat} {work : Worklist} (marked : Marked size work)
include marked

theorem lt_of_mem {s : Nat} (waits : s ∈ work.queue) : s < size :=
  marked.size ▸ (Array.getElem?_eq_some_iff.1 ((marked.mem_iff s).1 waits)).1

theorem enqueue (s : Nat) : Marked size (work.enqueue s) := by
  unfold Worklist.enqueue
  split
  · next idle =>
    have less : s < work.queued.size := (Array.getElem?_eq_some_iff.1 idle).1
    have new : s ∉ work.queue := by
      rw [marked.mem_iff, idle]
      simp
    refine ⟨by simp [marked.size], ?_, fun t => ?_⟩
    · exact List.nodup_append'.2 ⟨marked.nodup, List.nodup_singleton s, by simpa using new⟩
    · rw [List.mem_append, List.mem_singleton, Array.getElem?_setIfInBounds, marked.mem_iff]
      split
      · next same => simp [← same, less]
      · next other => simp [Ne.symm other]
  · exact marked

theorem mem_enqueue {s t : Nat} (less : s < size) :
    t ∈ (work.enqueue s).queue ↔ t ∈ work.queue ∨ t = s := by
  unfold Worklist.enqueue
  split
  · simp
  · next busy =>
    have waits : s ∈ work.queue := by
      rw [marked.mem_iff]
      rw [← marked.size] at less
      rw [Array.getElem?_eq_getElem less] at busy ⊢
      simpa using busy
    exact ⟨.inl, fun either => either.elim id fun same => same ▸ waits⟩

theorem foldl_enqueue (targets : List Nat) (less : ∀ s ∈ targets, s < size) :
    Marked size (targets.foldl Worklist.enqueue work) ∧
      (∀ t, t ∈ (targets.foldl Worklist.enqueue work).queue ↔ t ∈ work.queue ∨ t ∈ targets) := by
  induction targets generalizing work with
  | nil => exact ⟨marked, fun t => by simp⟩
  | cons s rest ih =>
    obtain ⟨marked', mem⟩ := ih (marked.enqueue s) fun t inside => less t (List.mem_cons_of_mem _ inside)
    refine ⟨marked', fun t => ?_⟩
    rw [List.foldl_cons, mem, marked.mem_enqueue (less s List.mem_cons_self), List.mem_cons, or_assoc]

end Marked

theorem sets_foldl_enqueue (targets : List Nat) (work : Worklist) :
    (targets.foldl enqueue work).ins = work.ins ∧ (targets.foldl enqueue work).outs = work.outs := by
  induction targets generalizing work with
  | nil => exact ⟨rfl, rfl⟩
  | cons s rest ih =>
    rw [List.foldl_cons, (ih _).1, (ih _).2, enqueue]
    split <;> exact ⟨rfl, rfl⟩

/-- The definitions that a statement leaves behind, by what its predecessors do. -/
def output (region : Region) (control : Control) (entry : List Definition)
    (outs : Array (Option (List Definition))) (s : Nat) : List Definition :=
  Definition.transfer (input region control entry outs s) (region.accessesOf s)

/-- What a step does: the sets of the statement in front are worked out, it leaves the queue, and its
successors wait if the set behind it is another one than before. -/
structure Moves (region : Region) (control : Control) (entry : List Definition)
    (work after : Worklist) (s : Nat) (rest : List Nat) : Prop where
  front : work.queue = s :: rest
  ins : after.ins = work.ins.setIfInBounds s (input region control entry work.outs s)
  outs : after.outs = work.outs.setIfInBounds s (some (output region control entry work.outs s))
  marked : Marked region.accesses.size after
  queue : work.outs[s]? = some (some (output region control entry work.outs s)) ∧
      after.queue = rest ∨
    work.outs[s]? ≠ some (some (output region control entry work.outs s)) ∧
      ∀ t, t ∈ after.queue ↔ t ∈ rest ∨ t ∈ control.successors s

theorem setIfInBounds_self {α : Type} {items : Array α} {place : Nat} {item : α}
    (here : items[place]? = some item) : items.setIfInBounds place item = items := by
  refine Array.ext_getElem? fun other => ?_
  rw [Array.getElem?_setIfInBounds]
  split
  · next same =>
    subst same
    rw [if_pos (Array.getElem?_eq_some_iff.1 here).1, here]
  · rfl

theorem moves_of_step (within : control.Within region) {work after : Worklist}
    (marked : Marked region.accesses.size work) (taken : step region control entry work = some after) :
    ∃ s rest, Moves region control entry work after s rest := by
  unfold step at taken
  split at taken
  · cases taken
  · next s rest front =>
    obtain ⟨fresh, nodup⟩ := List.nodup_cons.1 (front ▸ marked.nodup)
    have popped : ∀ ins outs, Marked region.accesses.size
        ⟨rest, work.queued.setIfInBounds s false, ins, outs⟩ := by
      refine fun ins outs => ⟨by simp [marked.size], nodup, fun t => ?_⟩
      have mem := marked.mem_iff t
      rw [front, List.mem_cons] at mem
      rw [Array.getElem?_setIfInBounds]
      split
      · next same => simp [← same, fresh]
      · next other => rw [← mem, or_iff_right (Ne.symm other)]
    refine ⟨s, rest, ?_⟩
    dsimp only at taken
    split at taken
    · next same =>
      obtain rfl := Option.some.inj taken
      exact ⟨front, rfl, (setIfInBounds_self same).symm, popped _ _, .inl ⟨same, rfl⟩⟩
    · next differs =>
      obtain rfl := Option.some.inj taken
      obtain ⟨marked', mem⟩ := (popped (work.ins.setIfInBounds s
        (input region control entry work.outs s)) (work.outs.setIfInBounds s (some
          (output region control entry work.outs s)))).foldl_enqueue (control.successors s)
            (within.target_lt s)
      obtain ⟨ins, outs⟩ := sets_foldl_enqueue (control.successors s) _
      exact ⟨front, ins, outs, marked', .inr ⟨differs, mem⟩⟩

/-! ## The sets only grow -/

theorem transfer_mono {state more : List Definition} (subset : state ⊆ more)
    (accesses : List Access) :
    Definition.transfer state accesses ⊆ Definition.transfer more accesses := by
  intro definition inside
  rw [Definition.mem_transfer] at inside ⊢
  exact inside.imp fun held => subset held

/-- The sets between two steps. -/
structure Consistent (region : Region) (control : Control) (entry : List Definition)
    (work : Worklist) : Prop where
  marked : Marked region.accesses.size work
  ins_size : work.ins.size = region.accesses.size
  outs_size : work.outs.size = region.accesses.size
  /-- What a statement leaves behind was worked out from the set before it, and this from less than is
  known now. -/
  done : ∀ s output, work.outs[s]? = some (some output) →
    output = Definition.transfer (work.inOf s) (region.accessesOf s) ∧
      work.inOf s ⊆ input region control entry work.outs s
  ordered : ∀ s, Definition.Ordered (work.inOf s)
  /-- A statement whose sets have not been worked out yet waits. -/
  begun : ∀ s, work.outs[s]? = some none → s ∈ work.queue
  /-- A statement that does not wait has its sets by what is known now. -/
  settled : ∀ s < region.accesses.size, s ∉ work.queue →
    work.inOf s = input region control entry work.outs s

theorem consistent_start : Consistent region control entry (start region.accesses.size) := by
  have nothing : ∀ s, (start region.accesses.size).inOf s = [] := by
    intro s
    rw [inOf, start, Array.getElem?_replicate]
    split <;> rfl
  refine ⟨⟨by simp [start], List.nodup_range, fun s => ?_⟩, by simp [start], by simp [start],
    fun s output held => ?_, fun s => ?_, fun s held => ?_, fun s inside idle => ?_⟩
  · simp [start, Array.getElem?_replicate]
  · simp [start, Array.getElem?_replicate] at held
  · rw [nothing]
    exact .nil
  · simpa [start] using (Array.getElem?_eq_some_iff.1 held).1
  · exact absurd (List.mem_range.2 inside) idle

namespace Moves

variable {work after : Worklist} {s : Nat} {rest : List Nat}
  (consistent : Consistent region control entry work)
  (moves : Moves region control entry work after s rest)

include consistent moves

theorem lt : s < region.accesses.size :=
  consistent.marked.lt_of_mem (moves.front ▸ List.mem_cons_self)

theorem inOf_self : after.inOf s = input region control entry work.outs s := by
  have less : s < work.ins.size := consistent.ins_size ▸ lt consistent moves
  simp [inOf, moves.ins, less]

theorem outs_self : after.outs[s]? = some (some (output region control entry work.outs s)) := by
  have less : s < work.outs.size := consistent.outs_size ▸ lt consistent moves
  simp [moves.outs, less]

omit consistent in
theorem inOf_other {t : Nat} (other : s ≠ t) : after.inOf t = work.inOf t := by
  simp [inOf, moves.ins, other]

omit consistent in
theorem outs_other {t : Nat} (other : s ≠ t) : after.outs[t]? = work.outs[t]? := by
  simp [moves.outs, other]

/-- Whatever a statement is found to leave behind, it is found to leave behind from then on. -/
theorem out_subset (t : Nat) : out work.outs t ⊆ out after.outs t := by
  by_cases same : s = t
  · subst same
    intro definition held
    have less : s < work.outs.size := consistent.outs_size ▸ lt consistent moves
    rw [out, Array.getElem?_eq_getElem less] at held
    cases before : work.outs[s] with
    | none =>
      rw [before] at held
      cases held
    | some earlier =>
      rw [before] at held
      obtain ⟨worked, subset⟩ := consistent.done s earlier
        (by rw [Array.getElem?_eq_getElem less, before])
      rw [out, outs_self consistent moves]
      exact transfer_mono subset _ (worked ▸ held)
  · rw [out, out, moves.outs_other same]
    exact List.Subset.refl _

theorem input_subset (t : Nat) : input region control entry work.outs t ⊆
    input region control entry after.outs t := by
  intro definition inside
  rw [mem_input] at inside ⊢
  exact inside.imp_right fun ⟨before, listed, held⟩ =>
    ⟨before, listed, out_subset consistent moves before held⟩

/-- The set before a statement changes only if it has to wait. -/
theorem input_eq {t : Nat} (idle : t ∉ after.queue) : input region control entry after.outs t =
    input region control entry work.outs t := by
  have same : ∀ before ∈ control.predecessors t, out after.outs before = out work.outs before := by
    intro before listed
    by_cases here : s = before
    · subst here
      rcases moves.queue with ⟨unchanged, -⟩ | ⟨-, waits⟩
      · rw [out, out, outs_self consistent moves, unchanged]
      · exact absurd ((waits t).2 (.inr (Control.mem_predecessors.1 listed))) idle
    · rw [out, out, moves.outs_other here]
  rw [input, input, List.flatMap_congr same]

theorem consistent_after : Consistent region control entry after := by
  have keeps : ∀ t ∈ rest, t ∈ after.queue := by
    intro t inside
    rcases moves.queue with ⟨-, same⟩ | ⟨-, waits⟩
    · rwa [same]
    · exact (waits t).2 (.inl inside)
  refine ⟨moves.marked, by simp [moves.ins, consistent.ins_size],
    by simp [moves.outs, consistent.outs_size], fun t out held => ?done, fun t => ?ordered,
    fun t held => ?begun, fun t inside idle => ?settled⟩
  case done =>
    by_cases same : s = t
    · subst same
      rw [outs_self consistent moves] at held
      rw [inOf_self consistent moves]
      exact ⟨(Option.some.inj (Option.some.inj held)).symm, input_subset consistent moves s⟩
    · rw [moves.outs_other same] at held
      obtain ⟨worked, subset⟩ := consistent.done t out held
      rw [moves.inOf_other same]
      exact ⟨worked, List.Subset.trans subset (input_subset consistent moves t)⟩
  case ordered =>
    by_cases same : s = t
    · subst same
      rw [inOf_self consistent moves]
      exact Definition.ordered_sorted _
    · rw [moves.inOf_other same]
      exact consistent.ordered t
  case begun =>
    by_cases same : s = t
    · subst same
      rw [outs_self consistent moves] at held
      cases held
    · rw [moves.outs_other same] at held
      rcases List.mem_cons.1 (moves.front ▸ consistent.begun t held) with rfl | inside
      · exact absurd rfl same
      · exact keeps t inside
  case settled =>
    rw [input_eq consistent moves idle]
    by_cases same : s = t
    · subst same
      exact inOf_self consistent moves
    · rw [moves.inOf_other same]
      refine consistent.settled t inside fun waits => ?_
      rcases List.mem_cons.1 (moves.front ▸ waits) with rfl | inside
      · exact same rfl
      · exact idle (keeps t inside)

end Moves

/-! ## The sets stay below every solution -/

/-- Nothing has been found to be live before a statement that is not in the given sets. -/
def Below (live : Nat → Definition → Prop) (work : Worklist) : Prop :=
  ∀ s, ∀ definition ∈ work.inOf s, live s definition

/-- Sets of definitions are no smaller than the equations of a region ask for. -/
def Covers (region : Region) (control : Control) (entry : List Definition)
    (live : Nat → Definition → Prop) : Prop :=
  ∀ s < region.accesses.size, ∀ definition,
    ((control.entry = some s ∧ definition ∈ Reaching.start region entry) ∨
      ∃ before ∈ control.predecessors s,
        LiveAfter (live before) (region.accessesOf before) definition) → live s definition

theorem below_start (live : Nat → Definition → Prop) (size : Nat) : Below live (start size) := by
  intro s definition inside
  rw [inOf, start, Array.getElem?_replicate] at inside
  split at inside <;> cases inside

theorem Below.moves {live : Nat → Definition → Prop} (covers : Covers region control entry live)
    {work after : Worklist} {s : Nat} {rest : List Nat} (below : Below live work)
    (consistent : Consistent region control entry work)
    (moves : Moves region control entry work after s rest) : Below live after := by
  intro t definition inside
  by_cases same : s = t
  · subst same
    rw [moves.inOf_self consistent, mem_input] at inside
    refine covers s (moves.lt consistent) definition (inside.imp_right ?_)
    rintro ⟨before, listed, held⟩
    refine ⟨before, listed, ?_⟩
    rw [out] at held
    cases worked : work.outs[before]? with
    | none =>
      rw [worked] at held
      cases held
    | some earlier =>
      cases earlier with
      | none =>
        rw [worked] at held
        cases held
      | some earlier =>
        rw [worked] at held
        have held : definition ∈ earlier := held
        rw [(consistent.done before earlier worked).1, Definition.mem_transfer] at held
        exact held.imp (below before definition)
  · rw [moves.inOf_other same] at inside
    exact below t definition inside

/-- No statement leaves a definition behind that occurs nowhere. -/
theorem mem_candidates_of_liveAfter {s : Nat} {definition : Definition}
    (after : LiveAfter (· ∈ Reaching.candidates region entry) (region.accessesOf s) definition) :
    definition ∈ Reaching.candidates region entry := by
  rcases after with written | ⟨-, known⟩
  · rw [Reaching.candidates, Definition.mem_sorted]
    exact List.mem_append_right _ (List.mem_flatMap.2 ⟨s, List.mem_range.2 (lt_of_lastWrite? written),
      Definition.mem_transfer.2 (.inl written)⟩)
  · exact known

theorem covers_candidates : Covers region control entry fun _ definition =>
    definition ∈ Reaching.candidates region entry := by
  rintro s - definition (⟨-, begins⟩ | ⟨before, -, after⟩)
  · have begins : definition ∈ Reaching.candidates region entry := by
      rw [Reaching.candidates, Definition.mem_sorted]
      exact List.mem_append_left _ begins
    exact begins
  · exact mem_candidates_of_liveAfter after

/-! ## The end of the loop -/

/-- Whether the sets of a statement have been worked out, or a definition has been found to be left
behind by it. -/
def known (work : Worklist) : Nat × Option Definition → Bool
  | (s, none) => work.outs[s]?.join.isSome
  | (s, some definition) => (out work.outs s).contains definition

/-- What may still be found. -/
def lacking (region : Region) (entry : List Definition) (work : Worklist) :
    List (Nat × Option Definition) :=
  (List.product (List.range region.accesses.size)
    (none :: (Reaching.candidates region entry).map some)).filter fun item => !work.known item

theorem length_filter_lt {α : Type} {items : List α} {fewer more : α → Bool} (item : α)
    (imp : ∀ item, fewer item = true → more item = true) (inside : item ∈ items)
    (left : more item = true) (gone : fewer item = false) :
    (items.filter fewer).length < (items.filter more).length := by
  have sub : (items.filter fewer).Sublist (items.filter more) :=
    List.monotone_filter_right items imp
  refine Nat.lt_of_le_of_ne sub.length_le fun same => ?_
  have there := List.mem_filter.2 ⟨inside, left⟩
  rw [← sub.eq_of_length same, List.mem_filter, gone] at there
  cases there.2

namespace Moves

variable {work after : Worklist} {s : Nat} {rest : List Nat}
  (consistent : Consistent region control entry work)
  (moves : Moves region control entry work after s rest)

include consistent moves

theorem known_after (item : Nat × Option Definition) (found : work.known item = true) :
    after.known item = true := by
  obtain ⟨t, _ | definition⟩ := item
  · by_cases same : s = t
    · subst same
      simp [known, outs_self consistent moves]
    · rw [known, moves.outs_other same]
      exact found
  · rw [known, List.contains_iff_mem] at found ⊢
    exact out_subset consistent moves t found

/-- A statement whose successors have to wait leaves something new behind. -/
theorem exists_new (below : Below (fun _ => (· ∈ Reaching.candidates region entry)) work)
    (changed : work.outs[s]? ≠ some (some (output region control entry work.outs s))) :
    ∃ item ∈ none :: (Reaching.candidates region entry).map some,
      work.known (s, item) = false ∧ after.known (s, item) = true := by
  have less : s < work.outs.size := consistent.outs_size ▸ lt consistent moves
  have self := outs_self consistent moves
  cases before : work.outs[s] with
  | none =>
    refine ⟨none, List.mem_cons_self, ?_, ?_⟩
    · simp [known, Array.getElem?_eq_getElem less, before]
    · simp [known, self]
  | some earlier =>
    have here : work.outs[s]? = some (some earlier) := by
      rw [Array.getElem?_eq_getElem less, before]
    obtain ⟨worked, subset⟩ := consistent.done s earlier here
    have grows : earlier ⊆ output region control entry work.outs s := by
      rw [worked]
      exact transfer_mono subset _
    obtain ⟨definition, inside, new⟩ : ∃ definition ∈ output region control entry work.outs s,
        definition ∉ earlier := by
      by_contra none
      push Not at none
      refine changed (here.trans (congrArg (some ∘ some) ?_))
      refine Definition.Ordered.eq_of_mem_iff ?_ ((Definition.ordered_sorted _).transfer _)
        fun definition => ⟨fun held => grows held, none definition⟩
      rw [worked]
      exact (consistent.ordered s).transfer _
    have candidate : definition ∈ Reaching.candidates region entry := by
      have after_ := below.moves covers_candidates consistent moves s
      rw [inOf_self consistent moves] at after_
      exact mem_candidates_of_liveAfter
        ((Definition.mem_transfer.1 inside).imp fun held => after_ definition held)
    refine ⟨some definition, List.mem_cons_of_mem _ (List.mem_map_of_mem candidate), ?_, ?_⟩
    · simpa [known, out, here] using new
    · simpa [known, out, self] using inside

/-- With every step something is found, or fewer statements wait. -/
theorem descends (below : Below (fun _ => (· ∈ Reaching.candidates region entry)) work) :
    Prod.Lex (· < ·) (· < ·) ((lacking region entry after).length, after.queue.length)
      ((lacking region entry work).length, work.queue.length) := by
  have fewer : ∀ item, (!after.known item) = true → (!work.known item) = true := by
    intro item lacks
    rw [Bool.not_eq_true'] at lacks ⊢
    exact Bool.eq_false_iff.2 fun found =>
      Bool.eq_false_iff.1 lacks (known_after consistent moves item found)
  rcases moves.queue with ⟨unchanged, same⟩ | ⟨changed, -⟩
  · have outs : after.outs = work.outs := by
      rw [moves.outs, setIfInBounds_self unchanged]
    have equal : lacking region entry after = lacking region entry work := by
      have known_eq : after.known = work.known := by
        funext item
        obtain ⟨t, _ | definition⟩ := item <;> simp only [known, outs]
      rw [lacking, lacking, known_eq]
    rw [equal, same, moves.front]
    exact .right _ (Nat.lt_succ_self _)
  · obtain ⟨item, listed, unknown, found⟩ := exists_new consistent moves below changed
    refine .left _ _ (length_filter_lt (s, item) fewer ?_ ?_ ?_)
    · exact List.pair_mem_product.2 ⟨List.mem_range.2 (lt consistent moves), listed⟩
    · rw [unknown]
      rfl
    · rw [found]
      rfl

end Moves

/-- The loop ends, in a consistent state. -/
theorem exists_halts (within : control.Within region) (entry : List Definition) :
    ∃ last, Halts (step region control entry) (start region.accesses.size) last := by
  refine Halts.exists_of_descent
    (fun work => ((lacking region entry work).length, work.queue.length))
    (fun work => Consistent region control entry work ∧
      Below (fun _ => (· ∈ Reaching.candidates region entry)) work) ?_ ?_
    ⟨consistent_start, below_start _ _⟩
  · rintro work after ⟨consistent, below⟩ taken
    obtain ⟨s, rest, moves⟩ := moves_of_step within consistent.marked taken
    exact ⟨moves.consistent_after consistent, below.moves covers_candidates consistent moves⟩
  · rintro work after ⟨consistent, below⟩ taken
    obtain ⟨s, rest, moves⟩ := moves_of_step within consistent.marked taken
    exact moves.descends consistent below

/-- When nothing waits, the sets satisfy the equations. -/
theorem Consistent.solves {work : Worklist} (consistent : Consistent region control entry work)
    (within : control.Within region) (empty : work.queue = []) :
    Solves region control entry fun s definition => definition ∈ work.inOf s := by
  have idle : ∀ s, s ∉ work.queue := by simp [empty]
  intro s inside definition
  dsimp only
  rw [consistent.settled s inside (idle s), mem_input]
  refine or_congr_right (exists_congr fun before => and_congr_right fun listed => ?_)
  have less : before < work.outs.size := by
    rw [consistent.outs_size, ← within.size]
    exact Control.lt_of_mem_successors (Control.mem_predecessors.1 listed)
  have held := Array.getElem?_eq_getElem less
  cases worked : work.outs[before] with
  | none => exact absurd (consistent.begun before (by rw [held, worked])) (idle before)
  | some output =>
    rw [worked] at held
    rw [out, held]
    change definition ∈ output ↔ _
    rw [(consistent.done before output held).1, Definition.mem_transfer]

/-- The sets that the search for one definition at a time finds are in order. -/
theorem ordered_of_before {s : Nat} {state : List Definition}
    (found : (Reaching.before region control entry)[s]? = some state) : Definition.Ordered state := by
  simp only [Reaching.before, List.getElem?_map] at found
  obtain ⟨place, -, rfl⟩ := Option.map_eq_some_iff.1 found
  rw [List.filterMap_map]
  refine (Definition.ordered_sorted _).filterMap _ fun a b less c kept d kept' => ?_
  simp only [Function.comp_apply, Option.ite_none_right_eq_some, Option.some.injEq] at kept kept'
  rwa [← kept.2, ← kept'.2]

section Last

variable {last : Worklist} (within : control.Within region)
  (halts : Halts (step region control entry) (start region.accesses.size) last)

include halts

theorem queue_of_halts : last.queue = [] := by
  have stopped := halts.stopped
  unfold step at stopped
  split at stopped
  · next none => exact none
  · dsimp only at stopped
    split at stopped <;> cases stopped

include within

theorem consistent_of_halts : Consistent region control entry last :=
  halts.invariant _ consistent_start fun work after consistent taken => by
    obtain ⟨s, rest, moves⟩ := moves_of_step within consistent.marked taken
    exact moves.consistent_after consistent

theorem solves_of_halts : Solves region control entry fun s definition => definition ∈ last.inOf s :=
  (consistent_of_halts within halts).solves within (queue_of_halts halts)

/-- Where the loop is over the sets are contained in every solution. -/
theorem least_of_halts {live : Nat → Definition → Prop} (solution : Solves region control entry live) :
    ∀ s, ∀ definition ∈ last.inOf s, live s definition := by
  have covers : Covers region control entry live :=
    fun s inside definition => (solution s inside definition).2
  refine (halts.invariant (fun work => Consistent region control entry work ∧ Below live work)
    ⟨consistent_start, below_start _ _⟩ ?_).2
  rintro work after ⟨consistent, below⟩ taken
  obtain ⟨s, rest, moves⟩ := moves_of_step within consistent.marked taken
  exact ⟨moves.consistent_after consistent, below.moves covers consistent moves⟩

theorem mem_inOf_of_halts {s : Nat} (inside : s < region.accesses.size) (definition : Definition) :
    definition ∈ last.inOf s ↔ LiveBefore region control (· ∈ entry) definition s :=
  ⟨least_of_halts within halts solves_liveBefore s definition,
    (solves_of_halts within halts).of_liveBefore within inside⟩

/-- The sets in which the loop ends are those that are found one definition at a time. -/
theorem ins_of_halts : last.ins.toList = Reaching.before region control entry := by
  have consistent := consistent_of_halts within halts
  have bounded : ∀ s, region.accesses.size ≤ s → control.successors s = [] := by
    intro s beyond
    refine List.eq_nil_iff_forall_not_mem.2 fun next step => ?_
    have less := Control.lt_of_mem_successors step
    rw [within.size] at less
    omega
  have lengths : last.ins.toList.length = (Reaching.before region control entry).length := by
    rw [Reaching.length_before, Array.length_toList, consistent.ins_size]
  refine List.ext_getElem lengths fun s less less' => ?_
  rw [Array.length_toList, consistent.ins_size] at less
  have found := List.getElem?_eq_getElem less'
  have here : last.ins.toList[s] = last.inOf s := by
    simp [inOf, consistent.ins_size, less]
  rw [here]
  exact (consistent.ordered s).eq_of_mem_iff (ordered_of_before found) fun definition =>
    (mem_inOf_of_halts within halts less definition).trans
      (Reaching.mem_before bounded found definition).symm

end Last

/-- The worklist ends. The sets in which it ends are those that are found one definition at a time;
they satisfy the equations, are contained in any others that do, and hold before a statement what
reaches it along some path. -/
theorem halts_at_least_solution (within : control.Within region) (entry : List Definition) :
    ∃ last, Halts (step region control entry) (start region.accesses.size) last ∧
      last.ins.toList = Reaching.before region control entry ∧
      Solves region control entry (fun s definition => definition ∈ last.inOf s) ∧
      (∀ live, Solves region control entry live →
        ∀ s, ∀ definition ∈ last.inOf s, live s definition) ∧
      ∀ s < region.accesses.size, ∀ definition, definition ∈ last.inOf s ↔
        ∃ first rest, ReachesAlong region control entry definition s first rest := by
  obtain ⟨last, halts⟩ := exists_halts within entry
  exact ⟨last, halts, ins_of_halts within halts, solves_of_halts within halts,
    fun live solution => least_of_halts within halts solution, fun s inside definition =>
      (mem_inOf_of_halts within halts inside definition).trans liveBefore_iff_reachesAlong⟩

/-- Two statements in a circle that control does not begin at, the first of which writes. -/
def circle : Region × Control where
  fst :=
    { owner := none
      accesses := #[#[{ kind := .write, binding := .node 5, site := 7 }], #[]] }
  snd :=
    { transfers := #[[{ target := 1, label := none }], [{ target := 0, label := some .back }]]
      exits := #[[], []]
      entry := none }

theorem within_circle : circle.2.Within circle.1 := by
  refine ⟨rfl, fun s next step => ?_⟩
  match s with
  | 0 => obtain rfl := List.mem_singleton.1 step; decide
  | 1 => obtain rfl := List.mem_singleton.1 step; decide
  | s + 2 => cases step

/-- What is written in a circle goes round in it, wherever control begins. -/
theorem halts_circle : circle.2.Within circle.1 ∧
    ∃ last, Halts (step circle.1 circle.2 []) (start circle.1.accesses.size) last ∧
      (⟨5, 7⟩ : Definition) ∈ last.inOf 0 := by
  refine ⟨within_circle, ?_⟩
  obtain ⟨last, halts, -, -, -, along⟩ := halts_at_least_solution within_circle []
  refine ⟨last, halts, (along 0 (by decide) _).2 ⟨0, [1, 0], ?_⟩⟩
  exact ⟨by simp [circle, Control.successors, Control.transfersFrom], rfl,
    by decide, .inr ⟨by simp, rfl⟩⟩

end Worklist

end CodeGraph

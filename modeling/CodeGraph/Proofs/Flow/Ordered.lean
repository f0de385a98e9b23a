import Mathlib.Data.List.Nodup
import Mathlib.Data.List.TakeWhile
import CodeGraph.Proofs.Flow.Reaching

/-!
# Sets of definitions

A set of definitions is a list in the order of variables and sites, each definition once
(`Definition.Ordered`). Sorting makes such a list of any, and accesses keep it one. Two of them that
hold the same definitions are equal (`Definition.Ordered.eq_of_mem_iff`).
-/

namespace CodeGraph

namespace Definition

/-- A definition comes before another, by its variable, then by its site. -/
def Precedes (a b : Definition) : Prop :=
  a.binding < b.binding ∨ a.binding = b.binding ∧ a.site < b.site

/-- A list of definitions is in order and holds each once. -/
def Ordered (definitions : List Definition) : Prop := definitions.Pairwise Precedes

theorem Precedes.trans {a b c : Definition} (one : a.Precedes b) (two : b.Precedes c) :
    a.Precedes c := by
  unfold Precedes at *
  omega

theorem Precedes.irrefl (a : Definition) : ¬ a.Precedes a := by
  unfold Precedes
  omega

theorem notAfter_iff {a b : Definition} : a.notAfter b = true ↔ a = b ∨ a.Precedes b := by
  obtain ⟨binding, site⟩ := a
  obtain ⟨binding', site'⟩ := b
  simp only [notAfter, Precedes, Bool.or_eq_true, Bool.and_eq_true, decide_eq_true_eq, beq_iff_eq,
    Definition.mk.injEq]
  omega

theorem precedes_of_not_notAfter {a b : Definition} (after : ¬ a.notAfter b = true) :
    b.Precedes a := by
  obtain ⟨binding, site⟩ := a
  obtain ⟨binding', site'⟩ := b
  simp only [notAfter, Precedes, Bool.or_eq_true, Bool.and_eq_true, decide_eq_true_eq,
    beq_iff_eq] at after ⊢
  omega

/-- Repetitions in a list that is in order stand next to each other. -/
theorem ordered_eraseReps_loop {a : Definition} {rest found : List Definition}
    (order : (a :: rest).Pairwise fun a b => a.notAfter b = true)
    (before : (a :: found).Pairwise fun a b => b.Precedes a) :
    Ordered (List.eraseRepsBy.loop (· == ·) a rest found) := by
  induction rest generalizing a found with
  | nil => exact List.pairwise_reverse.2 before
  | cons b rest ih =>
    obtain ⟨first, order'⟩ := List.pairwise_cons.1 order
    rw [List.eraseRepsBy.loop]
    split
    · exact ih (List.pairwise_cons.2 ⟨fun other inside => first other (List.mem_cons_of_mem _ inside),
        (List.pairwise_cons.1 order').2⟩) before
    · next differ =>
      have less : a.Precedes b := by
        rcases notAfter_iff.1 (first b List.mem_cons_self) with rfl | less
        · simp at differ
        · exact less
      refine ih order' (List.pairwise_cons.2 ⟨fun other inside => ?_, before⟩)
      rcases List.mem_cons.1 inside with rfl | inside
      · exact less
      · exact ((List.pairwise_cons.1 before).1 other inside).trans less

theorem ordered_sorted (definitions : List Definition) : Ordered (sorted definitions) := by
  have trans : ∀ a b c : Definition, a.notAfter b = true → b.notAfter c = true →
      a.notAfter c = true := by
    simp only [notAfter_iff]
    rintro a b c (rfl | one) (rfl | two)
    · exact .inl rfl
    · exact .inr two
    · exact .inr one
    · exact .inr (one.trans two)
  have total : ∀ a b : Definition, (a.notAfter b || b.notAfter a) = true := by
    intro a b
    by_cases after : a.notAfter b = true
    · simp [after]
    · simp [notAfter_iff.2 (.inr (precedes_of_not_notAfter after))]
  have order := List.pairwise_mergeSort trans total definitions
  unfold sorted List.eraseReps List.eraseRepsBy
  split
  · exact .nil
  · next a rest same =>
    rw [same] at order
    exact ordered_eraseReps_loop order (List.pairwise_singleton _ a)

/-- A write puts its definition between those that come before it and those that come after. -/
theorem Ordered.write {state : List Definition} (ordered : Ordered state) (binding site : Nat) :
    Ordered (write state binding site) := by
  let made : Definition := ⟨binding, site⟩
  let others := state.filter fun definition => definition.binding ≠ binding
  have split : Ordered (others.takeWhile (fun definition => definition.notAfter made) ++
      others.dropWhile fun definition => definition.notAfter made) := by
    rw [List.takeWhile_append_dropWhile]
    exact ordered.filter _
  obtain ⟨front, back, across⟩ := List.pairwise_append.1 split
  refine List.pairwise_append.2 ⟨front, List.pairwise_cons.2 ⟨fun later inside => ?_, back⟩, ?_⟩
  · -- The first one behind comes after the new one, and the rest come after that.
    have next := List.head?_dropWhile_not (fun definition => definition.notAfter made) others
    cases rest : others.dropWhile fun definition => definition.notAfter made with
    | nil =>
      rw [rest] at inside
      cases inside
    | cons head tail =>
      rw [rest] at inside back next
      have after : made.Precedes head := precedes_of_not_notAfter (by simpa using next)
      rcases List.mem_cons.1 inside with rfl | inside
      · exact after
      · exact after.trans ((List.pairwise_cons.1 back).1 later inside)
  · intro earlier inside later inside'
    have before : earlier.Precedes made := by
      have least := List.mem_takeWhile_imp inside
      rcases notAfter_iff.1 least with rfl | before
      · have other := (List.mem_filter.1 ((List.takeWhile_sublist _).subset inside)).2
        simp at other
      · exact before
    rcases List.mem_cons.1 inside' with rfl | inside'
    · exact before
    · exact across earlier inside later inside'

theorem Ordered.transfer {state : List Definition} (ordered : Ordered state)
    (accesses : List Access) : Ordered (transfer state accesses) := by
  induction accesses generalizing state with
  | nil => exact ordered
  | cons access rest ih =>
    refine ih ?_
    unfold step
    split
    · exact ordered.write _ _
    · exact ordered

theorem Ordered.nodup {state : List Definition} (ordered : Ordered state) : state.Nodup := by
  refine ordered.imp ?_
  rintro a b less rfl
  exact Precedes.irrefl a less

/-- Sets that hold the same definitions are equal. -/
theorem Ordered.eq_of_mem_iff {state other : List Definition} (ordered : Ordered state)
    (ordered' : Ordered other) (same : ∀ definition, definition ∈ state ↔ definition ∈ other) :
    state = other := by
  refine List.Perm.eq_of_pairwise (fun a b _ _ one two => ?_) ordered ordered'
    ((List.perm_ext_iff_of_nodup ordered.nodup ordered'.nodup).2 same)
  exact absurd (one.trans two) (Precedes.irrefl a)

end Definition

end CodeGraph

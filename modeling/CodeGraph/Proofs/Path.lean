import Mathlib.Data.List.GetD
import Mathlib.Data.String.Basic
import CodeGraph.Path

/-!
# Sorted lists of paths

The order of paths by components is strict, and of two paths that are not the same one comes before
the other. On a sorted list the binary search of `Path.slot?` finds the path or its place
(`finds_slot?`), so `Path.insert` keeps the list sorted and adds the path unless some
spelling of it is there already. Sorting a list all at once makes it strictly sorted if no two of its
paths are the same (`sorted_mergeSort`).
-/

namespace CodeGraph

namespace Path

/-! ## The order -/

namespace Component

theorem key_inj {a b : Component} (same : a.key = b.key) : a = b := by
  cases a <;> cases b <;> simp [key] at same ⊢
  exact same

theorem before_iff {a b : Component} :
    a.before b = true ↔ a.key.1 < b.key.1 ∨ a.key.1 = b.key.1 ∧ a.key.2 < b.key.2 := by
  simp [before]

theorem before_irrefl (a : Component) : ¬ a.before a = true := by
  rw [before_iff]
  rintro (less | ⟨-, less⟩)
  · exact Nat.lt_irrefl _ less
  · exact lt_irrefl _ less

theorem before_trans {a b c : Component} (first : a.before b = true) (second : b.before c = true) :
    a.before c = true := by
  rw [before_iff] at first second ⊢
  rcases first with first | ⟨rank, first⟩ <;> rcases second with second | ⟨rank', second⟩
  · exact .inl (Nat.lt_trans first second)
  · exact .inl (rank' ▸ first)
  · exact .inl (rank ▸ second)
  · exact .inr ⟨rank.trans rank', lt_trans first second⟩

/-- Of two components that differ one comes before the other. -/
theorem before_total {a b : Component} (notFirst : ¬ a.before b = true)
    (notSecond : ¬ b.before a = true) : a = b := by
  rw [before_iff, not_or, not_and] at notFirst notSecond
  have rank : a.key.1 = b.key.1 := Nat.le_antisymm (Nat.le_of_not_lt notSecond.1)
    (Nat.le_of_not_lt notFirst.1)
  have name : a.key.2 = b.key.2 :=
    le_antisymm (le_of_not_gt (notSecond.2 rank.symm)) (le_of_not_gt (notFirst.2 rank))
  exact key_inj (Prod.ext rank name)

end Component

theorem lexBefore_cons {a b : Component} {as bs : List Component} :
    lexBefore (a :: as) (b :: bs) = true ↔
      a.before b = true ∨ a = b ∧ lexBefore as bs = true := by
  simp [lexBefore]

theorem lexBefore_irrefl (as : List Component) : ¬ lexBefore as as = true := by
  induction as with
  | nil => simp [lexBefore]
  | cons a as ih =>
    rw [lexBefore_cons]
    rintro (less | ⟨-, less⟩)
    · exact a.before_irrefl less
    · exact ih less

theorem lexBefore_trans {as bs cs : List Component} (first : lexBefore as bs = true)
    (second : lexBefore bs cs = true) : lexBefore as cs = true := by
  induction as generalizing bs cs with
  | nil =>
    cases cs with
    | nil => cases bs <;> simp [lexBefore] at second
    | cons c cs => rfl
  | cons a as ih =>
    cases bs with
    | nil => simp [lexBefore] at first
    | cons b bs =>
      cases cs with
      | nil => simp [lexBefore] at second
      | cons c cs =>
        rw [lexBefore_cons] at first second ⊢
        rcases first with less | ⟨rfl, less⟩ <;> rcases second with more | ⟨rfl, more⟩
        · exact .inl (Component.before_trans less more)
        · exact .inl less
        · exact .inl more
        · exact .inr ⟨rfl, ih less more⟩

/-- Of two lists of components that differ one comes before the other. -/
theorem lexBefore_total {as bs : List Component} (notFirst : ¬ lexBefore as bs = true)
    (notSecond : ¬ lexBefore bs as = true) : as = bs := by
  induction as generalizing bs with
  | nil =>
    cases bs with
    | nil => rfl
    | cons b bs => exact absurd rfl notFirst
  | cons a as ih =>
    cases bs with
    | nil => exact absurd rfl notSecond
    | cons b bs =>
      rw [lexBefore_cons, not_or, not_and] at notFirst notSecond
      obtain rfl := Component.before_total notFirst.1 notSecond.1
      rw [ih (notFirst.2 rfl) (notSecond.2 rfl)]

variable {path a b c : Path} {list : List Path}

theorem before_trans (first : a.before b = true) (second : b.before c = true) :
    a.before c = true :=
  lexBefore_trans first second

theorem same_of_not_before (notFirst : ¬ a.before b = true) (notSecond : ¬ b.before a = true) :
    a.same b = true :=
  beq_iff_eq.2 (lexBefore_total notFirst notSecond)

theorem same_refl (a : Path) : a.same a = true := beq_self_eq_true _

/-! ## The search -/

/-- Strictly sorted: of any two paths in the list the first comes before the second. -/
def Sorted (list : List Path) : Prop := list.Pairwise fun a b => a.before b = true

theorem Sorted.before_of_lt (sorted : Sorted list) {i j : Nat} (less : i < j)
    (inside : j < list.length) :
    have : i < list.length := Nat.lt_trans less inside
    list[i].before list[j] = true :=
  List.pairwise_iff_getElem.1 sorted i j (Nat.lt_trans less inside) inside less

/-- What the search keeps: the path comes before everything behind the stretch, and not before the
start of the stretch, unless this is the start of the list. -/
theorem probe_spec (sorted : Sorted list) (path : Path) (base size : Nat) (some : 0 < size)
    (inside : base + size ≤ list.length)
    (above : ∀ (i : Nat) (_ : i < list.length), base + size ≤ i → path.before list[i] = true)
    (below : base = 0 ∨ ¬ path.before (list.getD base path) = true) :
    path.probe list base size < list.length ∧
      (∀ (i : Nat) (_ : i < list.length), path.probe list base size < i →
        path.before list[i] = true) ∧
      (path.probe list base size = 0 ∨
        ¬ path.before (list.getD (path.probe list base size) path) = true) := by
  fun_induction probe path list base size with
  | case1 base size more middle less ih =>
    have place : middle = base + size / 2 := rfl
    have here : middle < list.length := by omega
    rw [List.getD_eq_getElem list path here] at less
    refine ih (by omega) (by omega) ?_ below
    intro i there behind
    have reached : middle ≤ i := by omega
    rcases Nat.lt_or_eq_of_le reached with further | rfl
    · exact before_trans less (sorted.before_of_lt further there)
    · exact less
  | case2 base size more middle notLess ih =>
    have place : middle = base + size / 2 := rfl
    refine ih (by omega) (by omega) ?_ (.inr notLess)
    intro i there behind
    exact above i there (by omega)
  | case3 base size single =>
    exact ⟨by omega, fun i there behind => above i there (by omega), below⟩

theorem slot?_cons (path first : Path) (rest : List Path) :
    path.slot? (first :: rest) =
      let base := path.probe (first :: rest) 0 (first :: rest).length
      let found := (first :: rest).getD base path
      if found.before path then some (base + 1)
      else if path.before found then some base
      else none := rfl

/-- What the search of a sorted list has found: a place with everything in front of it before the
path and everything behind it after the path, or that the list holds a spelling of the path. -/
def Finds (path : Path) (list : List Path) : Option Nat → Prop
  | some slot => (∀ file ∈ list.take slot, file.before path = true) ∧
      ∀ file ∈ list.drop slot, path.before file = true
  | none => ∃ file ∈ list, file.same path = true

theorem finds_slot? (sorted : Sorted list) (path : Path) : path.Finds list (path.slot? list) := by
  cases list with
  | nil => exact ⟨by simp, by simp⟩
  | cons first rest =>
    have spec := probe_spec sorted path 0 (first :: rest).length (by simp) (by simp)
      (fun i there behind => absurd there (by omega)) (.inl rfl)
    rw [slot?_cons]
    dsimp only
    generalize path.probe (first :: rest) 0 (first :: rest).length = base at spec
    generalize first :: rest = list at *
    obtain ⟨inside, above, below⟩ := spec
    rw [List.getD_eq_getElem list path inside] at below ⊢
    by_cases earlier : list[base].before path = true
    · simp only [if_pos earlier]
      refine ⟨fun file there => ?_, fun file there => ?_⟩
      · obtain ⟨i, place, rfl⟩ := List.mem_take_iff_getElem.1 there
        rcases Nat.lt_or_eq_of_le (show i ≤ base by omega) with less | rfl
        · exact before_trans (sorted.before_of_lt less inside) earlier
        · exact earlier
      · obtain ⟨i, place, rfl⟩ := List.mem_drop_iff_getElem.1 there
        exact above _ _ (by omega)
    · simp only [if_neg earlier]
      by_cases later : path.before list[base] = true
      · -- The path comes before what the search ended at: this is the start of the list.
        obtain rfl : base = 0 := below.resolve_right (fun not => not later)
        simp only [if_pos later]
        refine ⟨fun file there => by simp at there, fun file there => ?_⟩
        obtain ⟨i, place, rfl⟩ := List.mem_drop_iff_getElem.1 there
        rcases Nat.eq_zero_or_pos i with rfl | positive
        · exact later
        · exact above _ _ (by omega)
      · simp only [if_neg later]
        exact ⟨list[base], List.getElem_mem inside, same_of_not_before earlier later⟩

/-! ## Sorting -/

/-- Not to come behind is transitive. -/
theorem not_before_trans (first : ¬ b.before a = true) (second : ¬ c.before b = true) :
    ¬ c.before a = true := by
  intro less
  by_cases between : a.before b = true
  · exact second (before_trans less between)
  · rw [before, lexBefore_total between first] at less
    exact second less

/-- Paths of different components can be sorted strictly. -/
theorem sorted_mergeSort (apart : (list.map components).Nodup) :
    Sorted (list.mergeSort fun a b => !b.before a) := by
  have transitive (a b c : Path) (first : (!b.before a) = true) (second : (!c.before b) = true) :
      (!c.before a) = true := by
    rw [Bool.not_eq_true', ← Bool.not_eq_true] at *
    exact not_before_trans first second
  have total (a b : Path) : (!b.before a || !a.before b) = true := by
    rw [Bool.or_eq_true, Bool.not_eq_true', Bool.not_eq_true', ← Bool.not_eq_true,
      ← Bool.not_eq_true, ← not_and_or]
    exact fun both => lexBefore_irrefl _ (before_trans both.1 both.2)
  have ordered := List.pairwise_mergeSort transitive total list
  have differ : ((list.mergeSort fun a b => !b.before a).map components).Nodup :=
    ((List.mergeSort_perm _ _).map _).nodup_iff.2 apart
  refine (ordered.and (List.pairwise_map.1 differ)).imp fun {a b} both => ?_
  by_contra notFirst
  rw [Bool.not_eq_true', ← Bool.not_eq_true] at both
  exact both.2 (lexBefore_total notFirst both.1)

/-! ## Inserting -/

theorem sorted_insert (sorted : Sorted list) (path : Path) : Sorted (path.insert list) := by
  have spec := finds_slot? sorted path
  unfold insert
  cases found : path.slot? list with
  | none => exact sorted
  | some slot =>
    rw [found] at spec
    obtain ⟨front, back⟩ := spec
    have parts : Sorted (list.take slot ++ list.drop slot) := by
      rw [List.take_append_drop]
      exact sorted
    obtain ⟨left, right, across⟩ := List.pairwise_append.1 parts
    refine List.pairwise_append.2 ⟨left, List.pairwise_cons.2 ⟨back, right⟩, ?_⟩
    intro a inside b there
    rcases List.mem_cons.1 there with rfl | there
    · exact front a inside
    · exact across a inside b there

/-- Some spelling of the path is in the list afterwards. -/
theorem same_mem_insert (sorted : Sorted list) (path : Path) :
    ∃ file ∈ path.insert list, file.same path = true := by
  have spec := finds_slot? sorted path
  unfold insert
  cases found : path.slot? list with
  | none =>
    rw [found] at spec
    exact spec
  | some slot => exact ⟨path, by simp, same_refl path⟩

theorem mem_insert_of_mem {file : Path} (path : Path) (inside : file ∈ list) :
    file ∈ path.insert list := by
  unfold insert
  cases path.slot? list with
  | none => exact inside
  | some slot =>
    rw [← List.take_append_drop slot list] at inside
    rcases List.mem_append.1 inside with front | back
    · exact List.mem_append_left _ front
    · exact List.mem_append_right _ (List.mem_cons_of_mem _ back)

end Path

end CodeGraph

import CodeGraph.Proofs.Flow.DataFlow

/-!
# Regions without branches

A region that has nothing but simple statements, one behind the other (`Skeleton.Straight`), runs through
its accesses in order: first those of the entry, then those of the statements. So what reaches a read is
left behind by the accesses before it, among all accesses of the region
(`Region.exists_reaches_iff_of_straight`).
-/

namespace CodeGraph

/-! ## One access after another -/

theorem lastWrite?_append (accesses others : List Access) (binding : Nat) :
    lastWrite? (accesses ++ others) binding =
      (lastWrite? others binding).or (lastWrite? accesses binding) := by
  induction accesses with
  | nil => rw [List.nil_append, lastWrite?, Option.or_none]
  | cons access rest ih => rw [List.cons_append, lastWrite?, ih, lastWrite?, Option.or_assoc]

/-- What is live behind two lists of accesses. -/
theorem liveAfter_append {before : Definition → Prop} {accesses others : List Access}
    {definition : Definition} :
    LiveAfter before (accesses ++ others) definition ↔
      LiveAfter (LiveAfter before accesses) others definition := by
  simp only [LiveAfter, lastWrite?_append]
  cases lastWrite? others definition.binding <;> simp

theorem writes_eq_false_iff {accesses : List Access} {binding : Nat} :
    writes accesses binding = false ↔ lastWrite? accesses binding = none := by
  induction accesses with
  | nil => exact iff_of_true rfl rfl
  | cons access rest ih =>
    rw [lastWrite?, Option.or_eq_none_iff, ← ih, writes, List.any_cons, Bool.or_eq_false_iff, and_comm]
    refine and_congr_right fun _ => ?_
    rw [beq_eq_false_iff_ne]
    split
    · next same => simp [same]
    · next other => exact iff_of_true other rfl

/-- What is live before a statement is left behind by one that control comes from, or by the entry. -/
theorem liveBefore_iff {region : Region} {control : Control} {entry : Definition → Prop}
    {definition : Definition} {s : Nat} : LiveBefore region control entry definition s ↔
      (control.entry = some s ∧ LiveAfter entry region.entryAccesses.toList definition) ∨
        ∃ before, s ∈ control.successors before ∧
          LiveAfter (fun other => LiveBefore region control entry other before)
            (region.accessesOf before) definition := by
  constructor
  · rintro (⟨maker, next, last, step, path⟩ | ⟨first, entered, live, path⟩)
    · cases path with
      | here => exact .inr ⟨maker, step, .inl last⟩
      | more path clear onward =>
        exact .inr ⟨_, onward, .inr ⟨writes_eq_false_iff.1 clear, .inl ⟨maker, next, last, step, path⟩⟩⟩
    · cases path with
      | here => exact .inl ⟨entered, live⟩
      | more path clear onward =>
        exact .inr ⟨_, onward, .inr ⟨writes_eq_false_iff.1 clear, .inr ⟨first, entered, live, path⟩⟩⟩
  · rintro (⟨entered, live⟩ | ⟨before, step, last | ⟨clear, live⟩⟩)
    · exact .inr ⟨s, entered, live, .here⟩
    · exact .inl ⟨before, s, last, step, .here⟩
    · have clear := writes_eq_false_iff.2 clear
      rcases live with ⟨maker, next, last, onward, path⟩ | ⟨first, entered, live, path⟩
      · exact .inl ⟨maker, next, last, onward, .more path clear step⟩
      · exact .inr ⟨first, entered, live, .more path clear step⟩

/-! ## Straight skeletons -/

namespace Skeleton

/-- There are nothing but simple statements, one behind the other, at some sites. -/
structure Straight (skeleton : Skeleton) (sites : List Nat) : Prop where
  statements : skeleton.statements.toList =
    sites.zipIdx.map fun entry => ⟨entry.1, .simple, root, entry.2, #[]⟩
  root : (skeleton.statementsOf root).toList = List.range sites.length
  free : skeleton.ownerOf? Skeleton.root = none

theorem straight_empty : Straight empty [] := ⟨rfl, rfl, rfl⟩

namespace Straight

variable {skeleton : Skeleton} {sites : List Nat}

theorem size (straight : skeleton.Straight sites) : skeleton.statements.size = sites.length := by
  rw [← Array.length_toList, straight.statements, List.length_map, List.length_zipIdx]

/-- A simple statement is added behind the others. -/
theorem push (straight : skeleton.Straight sites) (site : Nat) :
    (skeleton.push Skeleton.root site .simple).1.Straight (sites ++ [site]) := by
  have inside : skeleton.blockIn Skeleton.root = Skeleton.root := if_pos skeleton.root_lt
  refine ⟨?_, ?_, ?_⟩
  · rw [statements_push, inside, Array.toList_push, straight.statements, List.zipIdx_append,
      List.map_append, ← Array.length_toList, straight.root, List.length_range]
    simp
  · rw [statementsOf_push, if_pos inside, Array.toList_push, straight.root, straight.size,
      List.length_append, List.length_singleton, List.range_succ]
  · rw [ownerOf?_push, straight.free]

theorem stands (straight : skeleton.Straight sites) (s : Nat) :
    skeleton.statements[s]? = sites[s]?.map fun site => ⟨site, .simple, Skeleton.root, s, #[]⟩ := by
  rw [← Array.getElem?_toList, straight.statements, List.getElem?_map, List.getElem?_zipIdx,
    Option.map_map]
  simp [Function.comp_def]

theorem arrive_root (straight : skeleton.Straight sites) (index : Nat) :
    skeleton.arrive Skeleton.root index = if index < sites.length then some index else none := by
  rw [arrive, ← Array.getElem?_toList, straight.root, leave_of_free straight.free]
  by_cases inside : index < sites.length
  · rw [List.getElem?_range inside, if_pos inside]
  · rw [List.getElem?_eq_none (by simpa using inside), if_neg inside]
    rfl

/-- Control goes from each statement to the next one. -/
theorem mem_successors (straight : skeleton.Straight sites) {s next : Nat} :
    next ∈ (Control.of skeleton).successors s ↔ next = s + 1 ∧ next < sites.length := by
  cases found : sites[s]? with
  | none =>
    have missing : skeleton.statements[s]? = none := by rw [straight.stands, found]; rfl
    refine iff_of_false (Control.not_successor missing next) ?_
    have := List.getElem?_eq_none_iff.1 found
    omega
  | some site =>
    have stood : skeleton.statements[s]? = some ⟨site, .simple, Skeleton.root, s, #[]⟩ := by
      rw [straight.stands, found]; rfl
    have calm : skeleton.raisingWay ⟨site, .simple, Skeleton.root, s, #[]⟩ = none := by
      have free := straight.free
      rw [ownerOf?] at free
      unfold Skeleton.raisingWay
      cases here : skeleton.blocks[Skeleton.root]? with
      | none => rfl
      | some block =>
        rw [here, Option.bind_some] at free
        simp [free]
    rw [Control.mem_successors stood]
    simp only [Skeleton.ways, Skeleton.ownWays, calm, Option.toList_none, List.append_nil,
      List.mem_singleton, exists_eq_left, lands_after, straight.arrive_root]
    split
    · next less => simp only [Option.some.injEq]; omega
    · next beyond => exact iff_of_false (by intro wrong; cases wrong) (by omega)

theorem entry (straight : skeleton.Straight sites) (some_ : 0 < sites.length) :
    (Control.of skeleton).entry = some 0 := by
  have entered := lands_enter skeleton Skeleton.root
  rw [straight.arrive_root, if_pos some_] at entered
  exact entered

end Straight

end Skeleton

/-! ## Regions -/

/-- What stands in two lists stands in the first, or in the second behind the first. -/
theorem append_split_iff {α : Type} {left right before : List α} {item : α} :
    (∃ after, left ++ right = before ++ item :: after) ↔ (∃ later, left = before ++ item :: later) ∨
      ∃ earlier, before = left ++ earlier ∧ ∃ later, right = earlier ++ item :: later := by
  constructor
  · rintro ⟨after, whole⟩
    rcases List.append_eq_append_iff.1 whole with ⟨earlier, rfl, last⟩ | ⟨inner, rfl, rest⟩
    · exact .inr ⟨earlier, rfl, after, last⟩
    · cases inner with
      | nil => exact .inr ⟨[], by simp, after, rest.symm⟩
      | cons first inner =>
        obtain ⟨rfl, -⟩ := List.cons.inj rest
        exact .inl ⟨inner, rfl⟩
  · rintro (⟨later, rfl⟩ | ⟨earlier, rfl, later, rfl⟩)
    · exact ⟨later ++ right, by simp⟩
    · exact ⟨later, by simp⟩

/-- What stands in a list that is made number by number stands in what one of the numbers makes. -/
theorem flatMap_range_split_iff {α : Type} (f : Nat → List α) (bound : Nat) {before : List α} {item : α} :
    (∃ after, (List.range bound).flatMap f = before ++ item :: after) ↔
      ∃ s < bound, ∃ earlier, before = (List.range s).flatMap f ++ earlier ∧
        ∃ later, f s = earlier ++ item :: later := by
  induction bound with
  | zero => simp
  | succ bound ih =>
    rw [List.range_succ, List.flatMap_append, List.flatMap_singleton, append_split_iff, ih]
    constructor
    · rintro (⟨s, less, there⟩ | last)
      · exact ⟨s, Nat.lt_succ_of_lt less, there⟩
      · exact ⟨bound, Nat.lt_succ_self bound, last⟩
    · rintro ⟨s, less, there⟩
      rcases Nat.lt_succ_iff_lt_or_eq.1 less with old | rfl
      · exact .inl ⟨s, old, there⟩
      · exact .inr there

namespace Region

/-- The accesses before a statement of a straight region, in order. -/
def accessesBefore (region : Region) (s : Nat) : List Access :=
  region.entryAccesses.toList ++ (List.range s).flatMap region.accessesOf

variable {region : Region} {sites : List Nat}

/-- What is live before a statement of a straight region is left behind by the accesses before it. -/
theorem liveBefore_of_straight (straight : region.skeleton.Straight sites)
    {entry : Definition → Prop} {definition : Definition} {s : Nat} (inside : s < sites.length) :
    LiveBefore region (Control.of region.skeleton) entry definition s ↔
      LiveAfter entry (region.accessesBefore s) definition := by
  induction s generalizing definition with
  | zero =>
    rw [liveBefore_iff, straight.entry inside, accessesBefore, List.range_zero, List.flatMap_nil,
      List.append_nil]
    refine ⟨fun live => ?_, fun live => .inl ⟨rfl, live⟩⟩
    rcases live with ⟨-, live⟩ | ⟨before, step, -⟩
    · exact live
    · exact absurd (straight.mem_successors.1 step).1.symm (Nat.succ_ne_zero before)
  | succ s ih =>
    have entered := straight.entry (Nat.lt_of_le_of_lt (Nat.zero_le _) inside)
    have earlier : (fun other => LiveBefore region (Control.of region.skeleton) entry other s) =
        LiveAfter entry (region.accessesBefore s) := funext fun other => propext (ih (by omega))
    have next : region.accessesBefore (s + 1) = region.accessesBefore s ++ region.accessesOf s := by
      rw [accessesBefore, List.range_succ, List.flatMap_append, List.flatMap_singleton,
        ← List.append_assoc, accessesBefore]
    rw [liveBefore_iff, next, liveAfter_append, ← earlier]
    constructor
    · rintro (⟨first, -⟩ | ⟨before, step, live⟩)
      · cases entered.symm.trans first
      · obtain rfl := Nat.succ.inj (straight.mem_successors.1 step).1
        exact live
    · exact fun live => .inr ⟨s, straight.mem_successors.2 ⟨rfl, inside⟩, live⟩

/-- What reaches an access of a straight region is left behind by the accesses before it. -/
theorem reaches_iff_of_straight (straight : region.skeleton.Straight sites)
    {regionOf : Nat → Option Nat} {regions : List Region} {number : Nat} {place : Option Nat}
    {earlier : List Access} (inside : ∀ s, place = some s → s < sites.length)
    {definition : Definition} :
    DataFlow.Reaches regionOf regions number region place earlier definition ↔
      LiveAfter (DataFlow.LiveAtEntry regionOf regions number region)
        ((place.elim [] region.accessesBefore) ++ earlier) definition := by
  cases place with
  | none => rfl
  | some s =>
    have before : DataFlow.LiveAt region (Control.of region.skeleton)
        (DataFlow.LiveAtEntry regionOf regions number region) (some s) =
          LiveAfter (DataFlow.LiveAtEntry regionOf regions number region)
            (region.accessesBefore s) :=
      funext fun other => propext (liveBefore_of_straight straight (inside s rfl))
    rw [DataFlow.Reaches, before, Option.elim_some, liveAfter_append]

theorem allAccesses_eq (region : Region) : region.allAccesses =
    region.entryAccesses.toList ++ (List.range region.accesses.size).flatMap region.accessesOf := by
  have lists : region.accesses.toList.map Array.toList =
      (List.range region.accesses.size).map region.accessesOf := by
    refine List.ext_getElem (by simp) fun s inside _ => ?_
    have less : s < region.accesses.size := by simpa using inside
    simp [accessesOf, less]
  rw [allAccesses, List.flatMap_def, List.flatMap_def, lists]

/-- Where an access stands among all accesses of a region: at the entry, or in a statement behind the entry
and the statements before. -/
theorem allAccesses_split_iff (region : Region) {before : List Access} {access : Access} :
    (∃ after, region.allAccesses = before ++ access :: after) ↔ ∃ place earlier,
      (∀ s, place = some s → s < region.accesses.size) ∧
        before = place.elim [] region.accessesBefore ++ earlier ∧
        DataFlow.Stands region place earlier access := by
  rw [allAccesses_eq, append_split_iff]
  constructor
  · rintro (entry | ⟨earlier, rfl, statement⟩)
    · exact ⟨none, before, nofun, rfl, entry⟩
    · obtain ⟨s, less, inner, rfl, stands⟩ := (flatMap_range_split_iff _ _).1 statement
      refine ⟨some s, inner, fun _ same => Option.some.inj same ▸ less, ?_, stands⟩
      rw [Option.elim_some, accessesBefore, List.append_assoc]
  · rintro ⟨_ | s, earlier, inside, rfl, stands⟩
    · exact .inl stands
    · refine .inr ⟨_, ?_, (flatMap_range_split_iff _ _).2 ⟨s, inside s rfl, earlier, rfl, stands⟩⟩
      rw [Option.elim_some, accessesBefore, List.append_assoc]

/-- A definition reaches a read of a straight region just if the accesses before the read leave it behind. -/
theorem exists_reaches_iff_of_straight (straight : region.skeleton.Straight sites)
    (sized : sites.length = region.accesses.size) {regionOf : Nat → Option Nat} {regions : List Region}
    {number : Nat} {access : Access} {definition : Definition} :
    (∃ place earlier, DataFlow.Stands region place earlier access ∧
        DataFlow.Reaches regionOf regions number region place earlier definition) ↔
      ∃ before, (∃ after, region.allAccesses = before ++ access :: after) ∧
        LiveAfter (DataFlow.LiveAtEntry regionOf regions number region) before definition := by
  constructor
  · rintro ⟨place, earlier, stands, reaches⟩
    have inside : ∀ s, place = some s → s < region.accesses.size := by
      rintro s rfl
      obtain ⟨later, whole⟩ := stands
      refine Nat.lt_of_not_le fun beyond => ?_
      rw [accessesAt, accessesOf, Array.getElem?_eq_none beyond] at whole
      simp at whole
    exact ⟨_, region.allAccesses_split_iff.2 ⟨place, earlier, inside, rfl, stands⟩,
      (reaches_iff_of_straight straight fun s here => sized ▸ inside s here).1 reaches⟩
  · rintro ⟨before, whole, live⟩
    obtain ⟨place, earlier, inside, rfl, stands⟩ := region.allAccesses_split_iff.1 whole
    exact ⟨place, earlier, stands,
      (reaches_iff_of_straight straight fun s here => sized ▸ inside s here).2 live⟩

end Region

end CodeGraph

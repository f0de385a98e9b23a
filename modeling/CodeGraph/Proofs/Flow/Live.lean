import CodeGraph.Proofs.Flow.JumpFree

/-!
# No dead code and no traps

In a body without jumps control can come to every statement, and can leave the body from every statement
(`Region.Built.live`). Only what lies inside the cleanup of a guarded statement with neither a body nor a
handler is dead: such a statement leads past its cleanup (`Skeleton.Skipped`).

Control comes to a statement from outside inwards: from the statement that owns an arm to the start of the
arm, and from there along the statements of the arm, past each of them. A handler is entered from the last
statement of the body, and a cleanup from the end of the body or of the handler.
-/

namespace CodeGraph

/-- Transfers lead from the entry of the body to a statement. -/
def Control.Reachable (control : Control) (s : Nat) : Prop :=
  ∃ first, control.entry = some first ∧ Hops control.successors first s

theorem Control.Reachable.further {control : Control} {s t : Nat} (reachable : control.Reachable s)
    (onwards : Hops control.successors s t) : control.Reachable t := by
  obtain ⟨first, starts, hops⟩ := reachable
  exact ⟨first, starts, hops.trans onwards⟩

namespace Skeleton

/-- A statement with neither a body nor a handler has nothing to clean up after. -/
def Bare (skeleton : Skeleton) (statement : Statement) : Prop :=
  skeleton.arm? statement .guardedBody = none ∧ skeleton.arm? statement .handler = none

/-- The block lies inside the cleanup of a statement that has neither a body nor a handler. -/
def Skipped (skeleton : Skeleton) (block : Nat) : Prop :=
  ∃ owner, skeleton.Around block owner .cleanup ∧ skeleton.Bare owner

variable {skeleton : Skeleton} {s block arm : Nat} {statement : Statement} {role : Role}

theorem not_skipped_of_free (free : skeleton.ownerOf? block = none) : ¬ skeleton.Skipped block := by
  rintro ⟨owner, around, -⟩
  cases around with
  | arm owned _ => cases free.symm.trans owned
  | further owned _ _ => cases free.symm.trans owned

/-- An arm is skipped if it is a cleanup with nothing before it, or lies in a block that is skipped. -/
theorem skipped_iff (owned : skeleton.ownerOf? arm = some (s, role))
    (stood : skeleton.statements[s]? = some statement) : skeleton.Skipped arm ↔
      role = .cleanup ∧ skeleton.Bare statement ∨ skeleton.Skipped statement.block := by
  constructor
  · rintro ⟨owner, around, bare⟩
    cases around with
    | arm owned' stood' =>
      obtain ⟨rfl, rfl⟩ := Prod.mk.inj (Option.some.inj (owned.symm.trans owned'))
      obtain rfl := Option.some.inj (stood.symm.trans stood')
      exact .inl ⟨rfl, bare⟩
    | further owned' stood' outer =>
      obtain ⟨rfl, -⟩ := Prod.mk.inj (Option.some.inj (owned.symm.trans owned'))
      obtain rfl := Option.some.inj (stood.symm.trans stood')
      exact .inr ⟨owner, outer, bare⟩
  · rintro (⟨rfl, bare⟩ | ⟨owner, outer, bare⟩)
    · exact ⟨statement, .arm owned stood, bare⟩
    · exact ⟨owner, .further owned stood outer, bare⟩

/-- In a statement that is no switch an arm is the only one in its role. -/
theorem ArmsFit.arm?_eq (fit : skeleton.ArmsFit) (laid : skeleton.Laid)
    (owned : skeleton.ownerOf? arm = some (s, role))
    (stood : skeleton.statements[s]? = some statement) (single : role.kind ≠ .switch) :
    skeleton.arm? statement role = some arm := by
  have plays : skeleton.role? arm = some role := by rw [role?_eq, owned]; rfl
  have inside : arm ∈ statement.arms.toList := (laid.owns s statement arm stood).2 ⟨role, owned⟩
  have once := (fit statement (Array.mem_toList_iff.2 (Array.mem_of_getElem? stood)) role
    (List.mem_filterMap.2 ⟨arm, inside, plays⟩)).2 (fit.kind_eq laid owned stood ▸ single)
  rw [rolesOf, List.count_filterMap, List.countP_eq_length_filter, List.length_eq_one_iff] at once
  obtain ⟨only, once⟩ := once
  have among : ∀ other, other ∈ statement.arms.toList → skeleton.role? other = some role →
      other = only := by
    intro other there same
    have listed : other ∈ statement.arms.toList.filter fun arm => skeleton.role? arm == some role :=
      List.mem_filter.2 ⟨there, by simp [same]⟩
    rw [once] at listed
    exact List.mem_singleton.1 listed
  cases found : skeleton.arm? statement role with
  | none =>
    have apart := List.find?_eq_none.1 found arm inside
    simp [plays] at apart
  | some other =>
    rw [among other (mem_arms_of_arm? found) (role?_of_arm? found), among arm inside plays]

/-! ## The ways into arms -/

section Ways

variable (laid : skeleton.Laid) (fit : skeleton.ArmsFit)
include laid fit

/-- A statement leads into each of its arms, other than handlers and cleanups. -/
theorem mem_ways_enter (owned : skeleton.ownerOf? arm = some (s, role))
    (stood : skeleton.statements[s]? = some statement)
    (early : role ≠ .handler ∧ role ≠ .cleanup) :
    ∃ label, (skeleton.enter arm, label) ∈ skeleton.ways statement := by
  have kind := fit.kind_eq laid owned stood
  cases role with
  | case isDefault =>
    refine ⟨some .case, List.mem_append_left _ ?_⟩
    rw [ownWays, kind]
    refine List.mem_append_left _ (List.mem_map.2 ⟨(arm, isDefault), ?_, rfl⟩)
    refine List.mem_filterMap.2 ⟨arm, (laid.owns s statement arm stood).2 ⟨_, owned⟩, ?_⟩
    rw [role?_eq, owned]
    rfl
  | handler => exact absurd rfl early.1
  | cleanup => exact absurd rfl early.2
  | whenFalse =>
    have found := fit.arm?_eq laid owned stood (by decide)
    exact ⟨some .whenFalse, by simp [ways, ownWays, kind, Role.kind, armOrAfter, found]⟩
  | _ =>
    have found := fit.arm?_eq laid owned stood (by decide)
    simp [ways, ownWays, kind, Role.kind, armOrAfter, found]

/-- A guarded statement with nothing in its body leads into its handler. -/
theorem mem_ways_handler (owned : skeleton.ownerOf? arm = some (s, .handler))
    (stood : skeleton.statements[s]? = some statement)
    (nothing : (skeleton.arm? statement .guardedBody).bind skeleton.first? = none) :
    (skeleton.enter arm, some .exception) ∈ skeleton.ways statement := by
  have kind := fit.kind_eq laid owned stood
  have found := fit.arm?_eq laid owned stood (by decide)
  simp [ways, ownWays, kind, Role.kind, handlerWay, found, nothing]

/-- The last statement of a guarded body leads into the handler. -/
theorem mem_ways_raises (owned : skeleton.ownerOf? arm = some (s, .handler))
    (stood : skeleton.statements[s]? = some statement) {last : Statement}
    (around : skeleton.ownerOf? last.block = some (s, .guardedBody))
    (atEnd : last.index + 1 = (skeleton.statementsOf last.block).size) :
    (skeleton.enter arm, some .exception) ∈ skeleton.ways last := by
  have found := fit.arm?_eq laid owned stood (by decide)
  obtain ⟨here, held, placed⟩ := Option.bind_eq_some_iff.1 around
  have size : last.index + 1 = here.statements.size := by
    rw [atEnd, statementsOf, held]
    rfl
  refine List.mem_append_right _ (Option.mem_toList.2 ?_)
  simp [raisingWay, held, placed, stood, size, handlerWay, found]

end Ways

/-! ## Where control comes to -/

/-- Control comes to a place, unless this is outside of the body. -/
def ComesTo (skeleton : Skeleton) (place : Option Nat) : Prop :=
  ∀ n, place = some n → (Control.of skeleton).Reachable n

section Reach

variable (laid : skeleton.Laid) (fit : skeleton.ArmsFit) (free : skeleton.JumpFree)

theorem comesTo_landing (stood : skeleton.statements[s]? = some statement)
    (reachable : (Control.of skeleton).Reachable s) {landing : Option Landing} {label : Option Label}
    (way : (landing, label) ∈ skeleton.ways statement) : skeleton.ComesTo (lands landing) :=
  fun n landed => reachable.further
    (.more .here ((Control.mem_successors stood n).2 ⟨_, way, landed⟩))

include laid fit free

/-- Control comes past every statement that it comes to. -/
theorem comesTo_past (stood : skeleton.statements[s]? = some statement)
    (reachable : (Control.of skeleton).Reachable s) :
    skeleton.ComesTo (skeleton.arrive statement.block (statement.index + 1)) := by
  intro n next
  obtain ⟨back, leads⟩ := free.exists_ends laid fit statement.block (statement.index + 1)
  obtain ⟨front, whole⟩ := free.ends_past laid fit stood leads
  rw [next] at leads
  cases leads with
  | step _ _ _ => exact reachable.further (Control.hops_of_ends whole rfl n (by simp))

/-- Control that comes to the start of a block comes to every place in it. -/
theorem comesTo_along (start : skeleton.ComesTo (skeleton.arrive block 0)) {index : Nat}
    (there : index ≤ (skeleton.statementsOf block).size) :
    skeleton.ComesTo (skeleton.arrive block index) := by
  induction index with
  | zero => exact start
  | succ index ih =>
    obtain ⟨t, held⟩ : ∃ t, (skeleton.statementsOf block)[index]? = some t :=
      ⟨_, Array.getElem?_eq_getElem there⟩
    have come := ih (Nat.le_of_succ_le there) t (by rw [arrive, held])
    obtain ⟨statement, stood, rfl, rfl⟩ := laid.knows block index t held
    exact comesTo_past laid fit free stood come

/-- Control that comes to the start of a block comes to every statement in it. -/
theorem reachable_of_start (stood : skeleton.statements[s]? = some statement)
    (start : skeleton.ComesTo (skeleton.arrive statement.block 0)) :
    (Control.of skeleton).Reachable s := by
  have place := laid.stands s statement stood
  exact comesTo_along laid fit free start (Nat.le_of_lt (Array.getElem?_eq_some_iff.1 place).1) s
    (by rw [arrive, place])

theorem comesTo_leave (start : skeleton.ComesTo (skeleton.arrive block 0)) :
    skeleton.ComesTo (lands (skeleton.leave block)) := by
  have atEnd := comesTo_along laid fit free start (Nat.le_refl _)
  rwa [arrive, Array.getElem?_eq_none (Nat.le_refl _)] at atEnd

section Arms

variable (stood : skeleton.statements[s]? = some statement)
  (reachable : (Control.of skeleton).Reachable s)
include stood reachable

omit free in
/-- Control comes to the arms of a statement other than handlers and cleanups. -/
theorem comesTo_early (owned : skeleton.ownerOf? arm = some (s, role))
    (early : role ≠ .handler ∧ role ≠ .cleanup) : skeleton.ComesTo (skeleton.arrive arm 0) := by
  obtain ⟨label, way⟩ := mem_ways_enter laid fit owned stood early
  exact lands_enter skeleton arm ▸ comesTo_landing stood reachable way

/-- Control comes to the handler, if not from the statement then from the end of its body. -/
theorem comesTo_handler (owned : skeleton.ownerOf? arm = some (s, .handler)) :
    skeleton.ComesTo (skeleton.arrive arm 0) := by
  rw [← lands_enter]
  cases first : (skeleton.arm? statement .guardedBody).bind skeleton.first? with
  | none => exact comesTo_landing stood reachable (mem_ways_handler laid fit owned stood first)
  | some f =>
    obtain ⟨body, found, held⟩ := Option.bind_eq_some_iff.1 first
    have inside := laid.owned_of_arm? stood found
    have nonempty : 0 < (skeleton.statementsOf body).size := (Array.getElem?_eq_some_iff.1 held).1
    obtain ⟨t, last⟩ : ∃ t,
        (skeleton.statementsOf body)[(skeleton.statementsOf body).size - 1]? = some t :=
      ⟨_, Array.getElem?_eq_getElem (by omega)⟩
    obtain ⟨raising, standing, rfl, index⟩ := laid.knows body _ t last
    have start := comesTo_early laid fit stood reachable inside (by simp)
    exact comesTo_landing standing (reachable_of_start laid fit free standing start)
      (mem_ways_raises laid fit owned stood inside (by omega))

/-- Control comes to the cleanup, if there is a body or a handler before it. -/
theorem comesTo_cleanup (owned : skeleton.ownerOf? arm = some (s, .cleanup))
    (used : ¬ skeleton.Bare statement) : skeleton.ComesTo (skeleton.arrive arm 0) := by
  have cleaned : skeleton.cleaned statement = skeleton.arrive arm 0 := by
    rw [cleaned, fit.arm?_eq laid owned stood (by decide)]
  rw [← cleaned]
  cases body : skeleton.arm? statement .guardedBody with
  | some inner =>
    have inside := laid.owned_of_arm? stood body
    rw [← lands_leave_guarded laid inside stood (.inl rfl)]
    exact comesTo_leave laid fit free (comesTo_early laid fit stood reachable inside (by simp))
  | none =>
    cases handler : skeleton.arm? statement .handler with
    | some inner =>
      have inside := laid.owned_of_arm? stood handler
      rw [← lands_leave_guarded laid inside stood (.inr rfl)]
      exact comesTo_leave laid fit free (comesTo_handler laid fit free stood reachable inside)
    | none => exact absurd ⟨body, handler⟩ used

/-- Control comes to every arm that is not skipped. -/
theorem comesTo_arm (owned : skeleton.ownerOf? arm = some (s, role))
    (used : ¬ skeleton.Skipped arm) : skeleton.ComesTo (skeleton.arrive arm 0) := by
  rw [skipped_iff owned stood, not_or, not_and] at used
  cases role with
  | handler => exact comesTo_handler laid fit free stood reachable owned
  | cleanup => exact comesTo_cleanup laid fit free stood reachable owned (used.1 rfl)
  | _ => exact comesTo_early laid fit stood reachable owned (by simp)

end Arms

end Reach

/-! ## Where control does not come to -/

section Clear

/-- Control is outside of the body, or at a statement that is not skipped. -/
def Clear (skeleton : Skeleton) (place : Option Nat) : Prop :=
  ∀ n statement, place = some n → skeleton.statements[n]? = some statement →
    ¬ skeleton.Skipped statement.block

theorem clear_none : skeleton.Clear none := nofun

theorem clear_some (stood : skeleton.statements[s]? = some statement)
    (used : ¬ skeleton.Skipped statement.block) : skeleton.Clear (some s) := by
  rintro n other ⟨⟩ standing
  obtain rfl := Option.some.inj (stood.symm.trans standing)
  exact used

variable (laid : skeleton.Laid)
include laid

theorem clear_arrive {index : Nat} (used : ¬ skeleton.Skipped block)
    (leaves : skeleton.Clear (lands (skeleton.leave block))) :
    skeleton.Clear (skeleton.arrive block index) := by
  unfold arrive
  cases held : (skeleton.statementsOf block)[index]? with
  | none => exact leaves
  | some t =>
    obtain ⟨statement, stood, rfl, -⟩ := laid.knows block index t held
    exact clear_some stood used

theorem clear_cleaned (stood : skeleton.statements[s]? = some statement)
    (used : ¬ skeleton.Skipped statement.block) (armed : ¬ skeleton.Bare statement)
    (past : skeleton.Clear (skeleton.arrive statement.block (statement.index + 1))) :
    skeleton.Clear (skeleton.cleaned statement) := by
  unfold cleaned
  cases found : skeleton.arm? statement .cleanup with
  | none => exact past
  | some cleanup =>
    have owned := laid.owned_of_arm? stood found
    refine clear_arrive laid ?_ ?_
    · rw [skipped_iff owned stood, not_or]
      exact ⟨fun both => armed both.2, used⟩
    · rw [lands_leave_plain owned stood (.inr (.inr rfl))]
      exact past

variable (fit : skeleton.ArmsFit)
include fit

theorem clear_among (stood : skeleton.statements[s]? = some statement) (kind : statement.kind = .switch)
    (used : ¬ skeleton.Skipped statement.block)
    (past : skeleton.Clear (skeleton.arrive statement.block (statement.index + 1)))
    {front back : List Nat} (split : statement.arms.toList = front ++ back) :
    skeleton.Clear (skeleton.arriveAmong statement back) := by
  induction back generalizing front with
  | nil => exact past
  | cons arm rest ih =>
    obtain ⟨isDefault, owned⟩ := owned_case laid stood fit kind arm (by rw [split]; simp)
    have further : statement.arms.toList = (front ++ [arm]) ++ rest := by rw [split]; simp
    refine clear_arrive laid ?_ ?_
    · rw [skipped_iff owned stood]
      simp [used]
    · rw [lands_leave_case laid stood fit kind split]
      exact ih further

/-- Control that leaves a block that is not skipped does not come into one that is. -/
theorem clear_leave (used : ¬ skeleton.Skipped block) :
    skeleton.Clear (lands (skeleton.leave block)) := by
  induction block using Nat.strongRecOn with
  | ind block ih =>
    cases owned : skeleton.ownerOf? block with
    | none =>
      rw [leave_of_free owned]
      exact clear_none
    | some owner =>
      obtain ⟨s, role⟩ := owner
      obtain ⟨statement, stood, less⟩ := owner_stands owned
      have kind := fit.kind_eq laid owned stood
      rw [skipped_iff owned stood, not_or] at used
      have past : skeleton.Clear (skeleton.arrive statement.block (statement.index + 1)) :=
        clear_arrive laid used.2 (ih _ less used.2)
      cases role with
      | whenTrue => exact lands_leave_plain owned stood (.inl rfl) ▸ past
      | whenFalse => exact lands_leave_plain owned stood (.inr (.inl rfl)) ▸ past
      | cleanup => exact lands_leave_plain owned stood (.inr (.inr rfl)) ▸ past
      | loopBody => exact lands_leave_loopBody owned stood ▸ clear_some stood used.2
      | guardedBody =>
        have found := fit.arm?_eq laid owned stood (by decide)
        rw [lands_leave_guarded laid owned stood (.inl rfl)]
        exact clear_cleaned laid stood used.2 (fun bare => by simp [Bare, found] at bare) past
      | handler =>
        have found := fit.arm?_eq laid owned stood (by decide)
        rw [lands_leave_guarded laid owned stood (.inr rfl)]
        exact clear_cleaned laid stood used.2 (fun bare => by simp [Bare, found] at bare) past
      | case isDefault =>
        obtain ⟨front, back, split⟩ :=
          List.append_of_mem ((laid.owns s statement block stood).2 ⟨_, owned⟩)
        have past' : statement.arms.toList = (front ++ [block]) ++ back := by rw [split]; simp
        rw [lands_leave_case laid stood fit kind split]
        exact clear_among laid fit stood kind used.2 past past'

theorem clear_enter (used : ¬ skeleton.Skipped block) : skeleton.Clear (lands (skeleton.enter block)) :=
  lands_enter skeleton block ▸ clear_arrive laid used (clear_leave laid fit used)

theorem clear_after (used : ¬ skeleton.Skipped statement.block) :
    skeleton.Clear (lands (skeleton.after statement)) :=
  lands_after skeleton statement ▸ clear_arrive laid used (clear_leave laid fit used)

section Ways

variable (stood : skeleton.statements[s]? = some statement)
  (used : ¬ skeleton.Skipped statement.block)
include stood used

/-- A statement that is not skipped leads into no arm that is, unless this is its cleanup. -/
theorem clear_arm (inside : arm ∈ statement.arms.toList) (plays : skeleton.role? arm = some role)
    (plain : role ≠ .cleanup) : skeleton.Clear (lands (skeleton.enter arm)) := by
  obtain ⟨other, owned⟩ := laid.owned stood inside
  rw [role?_eq, owned] at plays
  obtain rfl := Option.some.inj plays
  refine clear_enter laid fit ?_
  rw [skipped_iff owned stood, not_or]
  exact ⟨fun both => plain both.1, used⟩

theorem clear_armOrAfter (plain : role ≠ .cleanup) :
    skeleton.Clear (lands (skeleton.armOrAfter statement role)) := by
  unfold armOrAfter
  cases found : skeleton.arm? statement role with
  | none => exact clear_after laid fit used
  | some arm =>
    exact clear_arm laid fit stood used (mem_arms_of_arm? found) (role?_of_arm? found) plain

theorem clear_handlerWay {way : Way} (leads : skeleton.handlerWay statement = some way) :
    skeleton.Clear (lands way.1) := by
  obtain ⟨arm, found, rfl⟩ := Option.map_eq_some_iff.1 leads
  exact clear_arm laid fit stood used (mem_arms_of_arm? found) (role?_of_arm? found) (by simp)

theorem clear_ownWays (plain : statement.kind ∉ StatementKind.jumps) :
    ∀ way ∈ skeleton.ownWays statement, skeleton.Clear (lands way.1) := by
  have past := clear_after laid fit used
  unfold ownWays
  cases kind : statement.kind <;> dsimp only
  case simple => exact List.forall_mem_singleton.2 past
  case conditional =>
    exact List.forall_mem_cons.2 ⟨clear_armOrAfter laid fit stood used (by simp),
      List.forall_mem_singleton.2 (clear_armOrAfter laid fit stood used (by simp))⟩
  case loop =>
    refine List.forall_mem_append.2 ⟨fun way inside => ?_, List.forall_mem_singleton.2 past⟩
    obtain ⟨arm, found, rfl⟩ := Option.map_eq_some_iff.1 (Option.mem_toList.1 inside)
    exact clear_arm laid fit stood used (mem_arms_of_arm? found) (role?_of_arm? found) (by simp)
  case switch =>
    refine List.forall_mem_append.2 ⟨fun way inside => ?_, ?_⟩
    · obtain ⟨entry, among, rfl⟩ := List.mem_map.1 inside
      obtain ⟨there, plays⟩ := mem_arms_of_casesOf among
      exact clear_arm laid fit stood used there plays (by simp)
    · split
      · exact fun _ none => nomatch none
      · exact List.forall_mem_singleton.2 past
  case guarded =>
    refine List.forall_mem_cons.2 ⟨clear_armOrAfter laid fit stood used (by simp), ?_⟩
    split
    · exact fun way inside => clear_handlerWay laid fit stood used (Option.mem_toList.1 inside)
    · exact fun _ none => nomatch none
  all_goals simp [kind, StatementKind.jumps] at plain

end Ways

/-- No way out of a statement that is not skipped leads to one that is. -/
theorem clear_ways (free : skeleton.JumpFree) (stood : skeleton.statements[s]? = some statement)
    (used : ¬ skeleton.Skipped statement.block) :
    ∀ way ∈ skeleton.ways statement, skeleton.Clear (lands way.1) := by
  refine List.forall_mem_append.2 ⟨clear_ownWays laid fit stood used (free.kind stood),
    fun way inside => ?_⟩
  simp only [Option.mem_toList, raisingWay, Option.bind_eq_bind, Option.bind_eq_some_iff] at inside
  obtain ⟨block, held, ⟨number, role⟩, placed, owner, standing, leads⟩ := inside
  have owned : skeleton.ownerOf? statement.block = some (number, role) :=
    Option.bind_eq_some_iff.2 ⟨block, held, placed⟩
  rw [skipped_iff owned standing, not_or] at used
  split at leads
  · exact clear_handlerWay laid fit standing used.2 leads
  · cases leads

/-- Control never comes to a statement that is skipped. -/
theorem clear_of_reachable (free : skeleton.JumpFree)
    (reachable : (Control.of skeleton).Reachable s) : skeleton.Clear (some s) := by
  obtain ⟨first, starts, hops⟩ := reachable
  induction hops with
  | here =>
    have entry : lands (skeleton.enter root) = some first := starts
    exact entry ▸ clear_enter laid fit (not_skipped_of_free laid.root_free)
  | @more b c _ step ih =>
    cases stood : skeleton.statements[b]? with
    | none => exact absurd step (Control.not_successor stood c)
    | some statement =>
      obtain ⟨way, inside, landed⟩ := (Control.mem_successors stood c).1 step
      exact landed ▸ clear_ways laid fit free stood (ih b statement rfl stood) way inside

end Clear

end Skeleton

namespace Region

variable {region : Region} {s : Nat} {statement : Statement}

/-- Control comes to the start of every block that is not skipped. -/
theorem Built.comesTo_start (built : region.Built) (fit : region.skeleton.ArmsFit)
    (free : region.skeleton.JumpFree) {block : Nat} (there : block < region.skeleton.blocks.size)
    (used : ¬ region.skeleton.Skipped block) :
    region.skeleton.ComesTo (region.skeleton.arrive block 0) := by
  have laid := built.laid
  induction block using Nat.strongRecOn with
  | ind block ih =>
    by_cases top : block = Skeleton.root
    · subst top
      intro n leads
      exact ⟨n, (Skeleton.lands_enter region.skeleton Skeleton.root).trans leads, .here⟩
    · obtain ⟨⟨s, role⟩, owned⟩ := built.owned there top
      obtain ⟨statement, stood, less⟩ := Skeleton.owner_stands owned
      have outer := used
      rw [Skeleton.skipped_iff owned stood, not_or] at outer
      have start := ih _ less (region.skeleton.statement_lt s statement stood) outer.2
      exact Skeleton.comesTo_arm laid fit free stood
        (Skeleton.reachable_of_start laid fit free stood start) owned used

/-- Control comes to the statements that are not skipped, and to no others. -/
theorem Built.reachable_iff (built : region.Built) (fit : region.skeleton.ArmsFit)
    (free : region.skeleton.JumpFree) (stood : region.skeleton.statements[s]? = some statement) :
    (Control.of region.skeleton).Reachable s ↔ ¬ region.skeleton.Skipped statement.block := by
  have laid := built.laid
  constructor
  · exact fun reachable => Skeleton.clear_of_reachable laid fit free reachable s statement rfl stood
  · intro used
    exact Skeleton.reachable_of_start laid fit free stood
      (built.comesTo_start fit free (region.skeleton.statement_lt s statement stood) used)

/-- In a region without jumps control comes from the entry to every statement, unless this is inside the
cleanup of a guarded statement that has neither a body nor a handler. From every statement, also from
those, control can come to one from which it leaves the region. -/
theorem Built.live (built : region.Built) (fit : region.skeleton.ArmsFit)
    (free : region.skeleton.JumpFree) (stood : region.skeleton.statements[s]? = some statement) :
    ((Control.of region.skeleton).Reachable s ↔ ¬ region.skeleton.Skipped statement.block) ∧
      ∃ last, Hops (Control.of region.skeleton).successors s last ∧
        (Control.of region.skeleton).exitsOf last ≠ [] := by
  refine ⟨built.reachable_iff fit free stood, ?_⟩
  obtain ⟨back, leads⟩ :=
    free.exists_ends built.laid fit statement.block (statement.index + 1)
  obtain ⟨front, ends⟩ := free.ends_past built.laid fit stood leads
  exact Control.exists_exit_of_ends ends rfl

/-- A guarded statement with two loops, one inside the other, in its body, and with a handler and a
cleanup. -/
def recovering : Region :=
  let region : Region := (push { owner := none } 0 0 .guarded).1
  let region := (region.addArm 0 .guardedBody).1
  let region := (region.addArm 0 .handler).1
  let region := (region.addArm 0 .cleanup).1
  let region := (region.push 1 1 .loop).1
  let region := (region.addArm 1 .loopBody).1
  let region := (region.push 4 2 .loop).1
  let region := (region.addArm 2 .loopBody).1
  let region := (region.push 2 3 .simple).1
  (region.push 3 4 .simple).1

theorem recovering_built : recovering.Built := by
  have guarded := (Built.start none #[]).push 0 0 .guarded (by decide)
  have body := guarded.addArm 0 .guardedBody (by decide)
  have handler := body.addArm 0 .handler (by decide)
  have cleanup := handler.addArm 0 .cleanup (by decide)
  have outer := cleanup.push 1 1 .loop (by decide)
  have around := outer.addArm 1 .loopBody (by decide)
  have inner := around.push 4 2 .loop (by decide)
  have idle := inner.addArm 2 .loopBody (by decide)
  have handled := idle.push 2 3 .simple (by decide)
  exact handled.push 3 4 .simple (by decide)

/-- Control comes to the cleanup, and from the inner loop it leaves. -/
theorem recovering_live : recovering.Built ∧ recovering.skeleton.ArmsFit ∧
    recovering.skeleton.JumpFree ∧ (Control.of recovering.skeleton).Reachable 4 ∧
    ∃ last, Hops (Control.of recovering.skeleton).successors 2 last ∧
      (Control.of recovering.skeleton).exitsOf last ≠ [] := by
  have fit : recovering.skeleton.ArmsFit := by
    unfold Skeleton.ArmsFit
    decide
  have free : recovering.skeleton.JumpFree := by
    unfold Skeleton.JumpFree
    decide
  have guarded : recovering.skeleton.statements[0]? = some ⟨0, .guarded, 0, 0, #[1, 2, 3]⟩ := rfl
  have cleaned : recovering.skeleton.statements[4]? = some ⟨4, .simple, 3, 0, #[]⟩ := rfl
  have inner : recovering.skeleton.statements[2]? = some ⟨2, .loop, 4, 0, #[5]⟩ := rfl
  have owned : recovering.skeleton.ownerOf? 3 = some (0, .cleanup) := rfl
  have body : recovering.skeleton.arm? ⟨0, .guarded, 0, 0, #[1, 2, 3]⟩ .guardedBody = some 1 := by
    decide
  have used : ¬ recovering.skeleton.Skipped 3 := by
    rw [Skeleton.skipped_iff owned guarded, not_or]
    exact ⟨fun both => (nomatch body.symm.trans both.2.1),
      Skeleton.not_skipped_of_free recovering_built.laid.root_free⟩
  exact ⟨recovering_built, fit, free, (recovering_built.live fit free cleaned).1.2 used,
    (recovering_built.live fit free inner).2⟩

/-- A guarded statement with a cleanup, and with neither a body nor a handler. -/
def unguarded : Region :=
  let region : Region := (push { owner := none } 0 0 .guarded).1
  let region := (region.addArm 0 .cleanup).1
  (region.push 1 1 .simple).1

theorem unguarded_built : unguarded.Built :=
  (((Built.start none #[]).push 0 0 .guarded (by decide)).addArm 0 .cleanup (by decide)).push 1 1
    .simple (by decide)

/-- Control does not come to the cleanup of such a statement. -/
theorem unguarded_dead : unguarded.Built ∧ unguarded.skeleton.ArmsFit ∧
    unguarded.skeleton.JumpFree ∧ 1 < unguarded.skeleton.statements.size ∧
    ¬ (Control.of unguarded.skeleton).Reachable 1 := by
  have fit : unguarded.skeleton.ArmsFit := by
    unfold Skeleton.ArmsFit
    decide
  have free : unguarded.skeleton.JumpFree := by
    unfold Skeleton.JumpFree
    decide
  have guarded : unguarded.skeleton.statements[0]? = some ⟨0, .guarded, 0, 0, #[1]⟩ := rfl
  have cleaned : unguarded.skeleton.statements[1]? = some ⟨1, .simple, 1, 0, #[]⟩ := rfl
  have skipped : unguarded.skeleton.Skipped 1 :=
    ⟨_, .arm (rfl : unguarded.skeleton.ownerOf? 1 = some (0, .cleanup)) guarded, by decide, by decide⟩
  exact ⟨unguarded_built, fit, free, by decide, fun reachable =>
    (unguarded_built.reachable_iff fit free cleaned).1 reachable skipped⟩

end Region

end CodeGraph

import CodeGraph.Checked.Control
import CodeGraph.Proofs.Checked.Table
import CodeGraph.Proofs.Flow.Branches
import CodeGraph.Proofs.Flow.Worklist

/-!
# Control flow finds every number

The blocks and the statements that the control flow of a skeleton is read off are there, because the
skeleton was built by adding statements and arms (`Skeleton.Laid`). Looking them up changes nothing, then
(`Checked.control_eq`), and every way out of a statement that stays inside the body leads to a statement
of it (`Skeleton.Laid.ways_inside`). So the worklist has a place for every statement that it comes by
(`Checked.halts_work`).
-/

namespace CodeGraph

namespace Checked

variable {skeleton : Skeleton} {statement : Statement} {s : Nat}

/-! ## Blocks -/

theorem first?_eq {block : Nat} (there : block < skeleton.blocks.size) :
    first? skeleton block = .ok (skeleton.first? block) := by
  have held := Array.getElem?_eq_getElem there
  rw [Skeleton.first?, Skeleton.statementsOf, held]
  exact bind_eq (entry_eq .blocks held) rfl

theorem next?_eq (there : statement.block < skeleton.blocks.size) :
    next? skeleton statement = .ok (skeleton.next? statement) := by
  have held := Array.getElem?_eq_getElem there
  rw [Skeleton.next?, Skeleton.statementsOf, held]
  exact bind_eq (entry_eq .blocks held) rfl

theorem role?_eq {block : Nat} (there : block < skeleton.blocks.size) :
    role? skeleton block = .ok (skeleton.role? block) := by
  have held := Array.getElem?_eq_getElem there
  rw [Skeleton.role?, held]
  exact bind_eq (entry_eq .blocks held) rfl

theorem armIn_eq (role : Role) {arms : List Nat} (there : ∀ arm ∈ arms, arm < skeleton.blocks.size) :
    armIn skeleton role arms = .ok (arms.find? fun arm => skeleton.role? arm == some role) := by
  induction arms with
  | nil => rfl
  | cons arm rest ih =>
    have further := ih fun other below => there other (List.mem_cons_of_mem _ below)
    refine bind_eq (role?_eq (there arm List.mem_cons_self)) ?_
    rw [List.find?_cons]
    cases skeleton.role? arm == some role with
    | true => rfl
    | false => exact further

theorem arms_there (laid : skeleton.Laid) (stood : skeleton.statements[s]? = some statement) :
    ∀ arm ∈ statement.arms.toList, arm < skeleton.blocks.size :=
  fun _ inside => (laid.arm_gt stood inside).2

theorem arm?_eq (laid : skeleton.Laid) (stood : skeleton.statements[s]? = some statement)
    (role : Role) : arm? skeleton statement role = .ok (skeleton.arm? statement role) :=
  armIn_eq role (arms_there laid stood)

theorem arm?_there (laid : skeleton.Laid) (stood : skeleton.statements[s]? = some statement)
    {role : Role} {arm : Nat} (found : skeleton.arm? statement role = some arm) :
    arm < skeleton.blocks.size :=
  arms_there laid stood arm (List.mem_of_find?_eq_some found)

/-! ## Where control goes -/

theorem enterOr_eq {block : Nat} (there : block < skeleton.blocks.size)
    {otherwise : Except Missing (Option Landing)} {landing : Option Landing}
    (done : otherwise = .ok landing) : enterOr skeleton block otherwise =
      .ok (match skeleton.first? block with
        | some first => some { statement := first }
        | none => landing) := by
  refine bind_eq (first?_eq there) ?_
  cases skeleton.first? block with
  | some first => rfl
  | none => exact done

theorem intoCleanup_eq (laid : skeleton.Laid) (stood : skeleton.statements[s]? = some statement)
    (after : Option Landing) :
    intoCleanup skeleton statement after = .ok (skeleton.intoCleanup statement after) := by
  refine bind_eq (arm?_eq laid stood .cleanup) ?_
  unfold Skeleton.intoCleanup
  cases found : skeleton.arm? statement .cleanup with
  | none => rfl
  | some arm => exact enterOr_eq (arm?_there laid stood found) rfl

theorem pastArm_eq (laid : skeleton.Laid) (stood : skeleton.statements[s]? = some statement)
    (after : Option Landing) (role : Role) :
    pastArm skeleton s statement after role = .ok (skeleton.pastArm s statement after role) := by
  cases role with
  | guardedBody => exact intoCleanup_eq laid stood after
  | handler => exact intoCleanup_eq laid stood after
  | _ => rfl

theorem throughArms_eq (laid : skeleton.Laid) (stood : skeleton.statements[s]? = some statement)
    (after : Option Landing) {arms : List Nat} (there : ∀ arm ∈ arms, arm < skeleton.blocks.size) :
    throughArms skeleton s statement after arms =
      .ok (skeleton.throughArms s statement after arms) := by
  induction arms with
  | nil => rfl
  | cons arm rest ih =>
    have here := there arm List.mem_cons_self
    have further := ih fun other below => there other (List.mem_cons_of_mem _ below)
    rw [Skeleton.throughArms, throughArms]
    refine enterOr_eq here (bind_eq (role?_eq here) ?_)
    cases skeleton.role? arm with
    | none => rfl
    | some role =>
      cases role with
      | case isDefault => exact further
      | _ => exact pastArm_eq laid stood after _

theorem leave_eq (laid : skeleton.Laid) {block : Nat} (there : block < skeleton.blocks.size) :
    leave skeleton block = .ok (skeleton.leave block) := by
  induction block using Nat.strongRecOn with
  | ind block ih =>
    have found := Array.getElem?_eq_getElem there
    rw [leave]
    split
    · next missing =>
      rw [missing] at found
      cases found
    · next here held =>
      split
      · next free =>
        rw [Skeleton.leave_of_free (by rw [Skeleton.ownerOf?, held, Option.bind_some, free])]
      · next number role owned =>
        have owner : skeleton.ownerOf? block = some (number, role) := by
          rw [Skeleton.ownerOf?, held, Option.bind_some, owned]
        obtain ⟨statement, stood, less⟩ := Skeleton.owner_stands owner
        split
        · next missing =>
          rw [missing] at stood
          cases stood
        · next other standing =>
          obtain rfl : statement = other := Option.some.inj (stood.symm.trans standing)
          have around := skeleton.statement_lt number statement stood
          rw [Skeleton.leave_of_owned owner stood]
          refine bind_eq (next?_eq around) (bind_eq (?_ : _ = Except.ok (skeleton.after statement)) ?_)
          · unfold Skeleton.after
            cases skeleton.next? statement with
            | some next => rfl
            | none => exact ih _ less around
          · cases role with
            | case isDefault =>
              refine throughArms_eq laid stood _ fun arm below => arms_there laid stood arm ?_
              exact (List.dropWhile_sublist _).subset (List.mem_of_mem_drop below)
            | _ => exact pastArm_eq laid stood _ _

theorem enter_eq (laid : skeleton.Laid) {block : Nat} (there : block < skeleton.blocks.size) :
    enter skeleton block = .ok (skeleton.enter block) :=
  enterOr_eq there (leave_eq laid there)

theorem after_eq (laid : skeleton.Laid) (stood : skeleton.statements[s]? = some statement) :
    after skeleton statement = .ok (skeleton.after statement) := by
  have around := skeleton.statement_lt s statement stood
  refine bind_eq (next?_eq around) ?_
  unfold Skeleton.after
  cases skeleton.next? statement with
  | some next => rfl
  | none => exact leave_eq laid around

/-! ## Ways out of a statement -/

theorem enclosing_eq {accepts : Statement → Role → Except Missing Bool}
    {plain : Statement → Role → Bool}
    (asked : ∀ (number : Nat) (owner : Statement) (role : Role),
      skeleton.statements[number]? = some owner → accepts owner role = .ok (plain owner role))
    {block : Nat} (there : block < skeleton.blocks.size) :
    enclosing skeleton accepts block = .ok (skeleton.enclosing plain block) := by
  induction block using Nat.strongRecOn with
  | ind block ih =>
    have found := Array.getElem?_eq_getElem there
    rw [enclosing]
    split
    · next missing =>
      rw [missing] at found
      cases found
    · next here held =>
      split
      · next free =>
        rw [Skeleton.enclosing_of_free (by rw [Skeleton.ownerOf?, held, Option.bind_some, free])]
      · next number role owned =>
        have owner : skeleton.ownerOf? block = some (number, role) := by
          rw [Skeleton.ownerOf?, held, Option.bind_some, owned]
        obtain ⟨statement, stood, less⟩ := Skeleton.owner_stands owner
        split
        · next missing =>
          rw [missing] at stood
          cases stood
        · next other standing =>
          obtain rfl : statement = other := Option.some.inj (stood.symm.trans standing)
          rw [Skeleton.enclosing_of_owned owner stood]
          refine bind_eq (asked number statement role stood) ?_
          cases plain statement role with
          | true => rfl
          | false => exact ih _ less (skeleton.statement_lt number statement stood)

/-- What encloses a block is a statement. -/
theorem enclosing_stands {accepts : Statement → Role → Bool} {block : Nat} {owner : Nat × Statement}
    (found : skeleton.enclosing accepts block = some owner) :
    skeleton.statements[owner.1]? = some owner.2 := by
  induction block using Nat.strongRecOn with
  | ind block ih =>
    cases owned : skeleton.ownerOf? block with
    | none =>
      rw [Skeleton.enclosing_of_free owned] at found
      cases found
    | some place =>
      obtain ⟨number, role⟩ := place
      obtain ⟨statement, stood, less⟩ := Skeleton.owner_stands owned
      rw [Skeleton.enclosing_of_owned owned stood] at found
      split at found
      · exact Option.some.inj found ▸ stood
      · exact ih _ less found

theorem armOrAfter_eq (laid : skeleton.Laid) (stood : skeleton.statements[s]? = some statement)
    (role : Role) : armOrAfter skeleton statement role = .ok (skeleton.armOrAfter statement role) := by
  refine bind_eq (arm?_eq laid stood role) ?_
  unfold Skeleton.armOrAfter
  cases found : skeleton.arm? statement role with
  | some arm => exact enter_eq laid (arm?_there laid stood found)
  | none => exact after_eq laid stood

theorem armWay_eq (laid : skeleton.Laid) (stood : skeleton.statements[s]? = some statement)
    (role : Role) (label : Label) : armWay skeleton statement role label =
      .ok ((skeleton.arm? statement role).map fun arm => (skeleton.enter arm, some label)) := by
  refine bind_eq (arm?_eq laid stood role) ?_
  cases found : skeleton.arm? statement role with
  | some arm => exact bind_eq (enter_eq laid (arm?_there laid stood found)) rfl
  | none => rfl

theorem handlerWay_eq (laid : skeleton.Laid) (stood : skeleton.statements[s]? = some statement) :
    armWay skeleton statement .handler .exception = .ok (skeleton.handlerWay statement) :=
  armWay_eq laid stood .handler .exception

/-- The cases among the arms of a switch, and which of them are defaults. -/
def casesOf (skeleton : Skeleton) (arms : List Nat) : List (Nat × Bool) :=
  arms.filterMap fun arm =>
    match skeleton.role? arm with
    | some (.case isDefault) => some (arm, isDefault)
    | _ => none

theorem caseWays_eq (laid : skeleton.Laid) {arms : List Nat}
    (there : ∀ arm ∈ arms, arm < skeleton.blocks.size) : caseWays skeleton arms =
      .ok ((casesOf skeleton arms).map fun entry =>
        ((skeleton.enter entry.1, some Label.case), entry.2)) := by
  induction arms with
  | nil => rfl
  | cons arm rest ih =>
    have here := there arm List.mem_cons_self
    have further := ih fun other below => there other (List.mem_cons_of_mem _ below)
    refine bind_eq (role?_eq here) ?_
    rw [casesOf, List.filterMap_cons]
    cases skeleton.role? arm with
    | none => exact further
    | some role =>
      cases role with
      | case isDefault => exact bind_eq (enter_eq laid here) (bind_eq further rfl)
      | _ => exact further

theorem ownWays_eq (laid : skeleton.Laid) (stood : skeleton.statements[s]? = some statement) :
    ownWays skeleton statement = .ok (skeleton.ownWays statement) := by
  have around := skeleton.statement_lt s statement stood
  unfold ownWays Skeleton.ownWays
  cases statement.kind <;> dsimp only
  case simple => exact bind_eq (after_eq laid stood) rfl
  case conditional =>
    exact bind_eq (armOrAfter_eq laid stood .whenTrue)
      (bind_eq (armOrAfter_eq laid stood .whenFalse) rfl)
  case loop =>
    exact bind_eq (armWay_eq laid stood .loopBody .body) (bind_eq (after_eq laid stood) rfl)
  case switch =>
    refine bind_eq (caseWays_eq laid (arms_there laid stood)) (bind_eq (after_eq laid stood) ?_)
    simp only [List.map_map, List.any_map]
    rfl
  case guarded =>
    refine bind_eq (arm?_eq laid stood .guardedBody) (bind_eq
      (?_ : _ = Except.ok ((skeleton.arm? statement .guardedBody).bind skeleton.first?))
      (bind_eq (armOrAfter_eq laid stood .guardedBody) (bind_eq (handlerWay_eq laid stood) rfl)))
    cases found : skeleton.arm? statement .guardedBody with
    | none => rfl
    | some arm => exact first?_eq (arm?_there laid stood found)
  case throws =>
    have asked : ∀ (number : Nat) (owner : Statement) (role : Role),
        skeleton.statements[number]? = some owner →
        (do return role == Role.guardedBody && (← arm? skeleton owner .handler).isSome) =
          (.ok (role == Role.guardedBody && (skeleton.arm? owner .handler).isSome) :
            Except Missing Bool) :=
      fun number owner role held => bind_eq (arm?_eq laid held .handler) rfl
    refine bind_eq (enclosing_eq asked around) ?_
    cases found : skeleton.enclosing _ statement.block with
    | none => rfl
    | some owner => exact bind_eq (handlerWay_eq laid (enclosing_stands found)) rfl
  case breaks =>
    refine bind_eq (enclosing_eq (fun _ _ _ _ => rfl) around) ?_
    cases found : skeleton.enclosing _ statement.block with
    | none => rfl
    | some owner => exact bind_eq (after_eq laid (enclosing_stands found)) rfl
  case continues => exact bind_eq (enclosing_eq (fun _ _ _ _ => rfl) around) rfl
  case returns => rfl

theorem raisingWay_eq (laid : skeleton.Laid) (stood : skeleton.statements[s]? = some statement) :
    raisingWay skeleton statement = .ok (skeleton.raisingWay statement) := by
  obtain ⟨here, held⟩ : ∃ here, skeleton.blocks[statement.block]? = some here :=
    ⟨_, Array.getElem?_eq_getElem (skeleton.statement_lt s statement stood)⟩
  refine bind_eq (entry_eq .blocks held) ?_
  simp only [Skeleton.raisingWay, held, Option.bind_eq_bind, Option.bind_some]
  cases owned : here.owner with
  | none => rfl
  | some place =>
    obtain ⟨number, role⟩ := place
    obtain ⟨owner, standing, -⟩ := skeleton.block_lt _ here number role held owned
    refine bind_eq (entry_eq .statements standing) ?_
    simp only [standing, Option.bind_some]
    split
    · exact handlerWay_eq laid standing
    · rfl

theorem ways_eq (laid : skeleton.Laid) (stood : skeleton.statements[s]? = some statement) :
    ways skeleton statement = .ok (skeleton.ways statement) :=
  bind_eq (ownWays_eq laid stood) (bind_eq (raisingWay_eq laid stood) rfl)

end Checked

/-! ## Ways lead to statements -/

namespace Skeleton

variable {skeleton : Skeleton} {statement : Statement} {s : Nat}

theorem Laid.enter_inside (laid : skeleton.Laid) (block : Nat) :
    skeleton.LandsInside (skeleton.enter block) := by
  unfold enter
  split
  · next first found => exact laid.first_inside found
  · exact laid.leave_inside block

theorem Laid.armOrAfter_inside (laid : skeleton.Laid) (statement : Statement) (role : Role) :
    skeleton.LandsInside (skeleton.armOrAfter statement role) := by
  unfold armOrAfter
  split
  · exact laid.enter_inside _
  · exact laid.after_inside statement

theorem Laid.handlerWay_inside (laid : skeleton.Laid) {way : Way}
    (found : skeleton.handlerWay statement = some way) : skeleton.LandsInside way.1 := by
  obtain ⟨arm, -, rfl⟩ := Option.map_eq_some_iff.1 found
  exact laid.enter_inside arm

theorem Laid.ownWays_inside (laid : skeleton.Laid) (statement : Statement) :
    ∀ way ∈ skeleton.ownWays statement, skeleton.LandsInside way.1 := by
  have nowhere : skeleton.LandsInside none := fun _ none => nomatch none
  have past := laid.after_inside statement
  unfold ownWays
  cases statement.kind <;> dsimp only
  case simple => exact List.forall_mem_singleton.2 past
  case conditional =>
    exact List.forall_mem_cons.2 ⟨laid.armOrAfter_inside statement _,
      List.forall_mem_singleton.2 (laid.armOrAfter_inside statement _)⟩
  case loop =>
    refine List.forall_mem_append.2 ⟨fun way inside => ?_, List.forall_mem_singleton.2 past⟩
    obtain ⟨arm, -, rfl⟩ := Option.map_eq_some_iff.1 (Option.mem_toList.1 inside)
    exact laid.enter_inside arm
  case switch =>
    refine List.forall_mem_append.2 ⟨fun way inside => ?_, ?_⟩
    · obtain ⟨arm, -, rfl⟩ := List.mem_map.1 inside
      exact laid.enter_inside arm.1
    · split
      · exact fun _ none => nomatch none
      · exact List.forall_mem_singleton.2 past
  case guarded =>
    refine List.forall_mem_cons.2 ⟨laid.armOrAfter_inside statement _, ?_⟩
    split
    · exact fun way inside => laid.handlerWay_inside (Option.mem_toList.1 inside)
    · exact fun _ none => nomatch none
  case throws =>
    refine List.forall_mem_singleton.2 ?_
    cases found : (skeleton.enclosing _ statement.block).bind _ with
    | none => exact nowhere
    | some way =>
      obtain ⟨owner, -, leads⟩ := Option.bind_eq_some_iff.1 found
      exact laid.handlerWay_inside leads
  case breaks =>
    intro way inside
    obtain ⟨owner, -, rfl⟩ := Option.map_eq_some_iff.1 (Option.mem_toList.1 inside)
    exact laid.after_inside owner.2
  case continues =>
    intro way inside
    obtain ⟨owner, found, rfl⟩ := Option.map_eq_some_iff.1 (Option.mem_toList.1 inside)
    have stands : skeleton.statements[(⟨owner.1, true⟩ : Landing).statement]? = some owner.2 :=
      Checked.enclosing_stands found
    exact landsInside_some stands
  case returns => exact List.forall_mem_singleton.2 nowhere

/-- Every way out of a statement leads out of the body or to a statement of it. -/
theorem Laid.ways_inside (laid : skeleton.Laid) (statement : Statement) :
    ∀ way ∈ skeleton.ways statement, skeleton.LandsInside way.1 := by
  refine List.forall_mem_append.2 ⟨laid.ownWays_inside statement, fun way inside => ?_⟩
  simp only [Option.mem_toList, raisingWay, Option.bind_eq_bind, Option.bind_eq_some_iff] at inside
  obtain ⟨block, -, ⟨number, role⟩, -, owner, -, leads⟩ := inside
  split at leads
  · exact laid.handlerWay_inside leads
  · cases leads

end Skeleton

/-! ## Control flow -/

section Flow

variable {skeleton : Skeleton} {region : Region}

theorem Control.size_of (skeleton : Skeleton) :
    (Control.of skeleton).transfers.size = skeleton.statements.size :=
  Array.size_map

/-- Control goes to statements of the region only. -/
theorem Control.target_lt (laid : skeleton.Laid) :
    ∀ transfers ∈ (Control.of skeleton).transfers.toList, ∀ transfer ∈ transfers,
      transfer.target < skeleton.statements.size := by
  intro transfers listed transfer inside
  simp only [Control.of, Array.toList_map, List.mem_map] at listed
  obtain ⟨statement, -, rfl⟩ := listed
  obtain ⟨way, leads, made⟩ := List.mem_filterMap.1 inside
  obtain ⟨landing, landed, rfl⟩ := Option.map_eq_some_iff.1 made
  obtain ⟨held, stands⟩ := laid.ways_inside statement way leads landing landed
  exact (Array.getElem?_eq_some_iff.1 stands).1

theorem Control.entry_lt (laid : skeleton.Laid) {first : Nat}
    (given : (Control.of skeleton).entry = some first) : first < skeleton.statements.size := by
  obtain ⟨landing, landed, rfl⟩ := Option.map_eq_some_iff.1 given
  obtain ⟨held, stands⟩ := laid.enter_inside Skeleton.root landing landed
  exact (Array.getElem?_eq_some_iff.1 stands).1

theorem Control.successor_lt (laid : skeleton.Laid) {s next : Nat}
    (goes : next ∈ (Control.of skeleton).successors s) : next < skeleton.statements.size := by
  obtain ⟨transfer, listed, rfl⟩ := List.mem_map.1 goes
  have less := lt_of_mem_successors goes
  rw [transfersFrom, Array.getElem?_eq_getElem less] at listed
  exact target_lt laid _ (by simp) transfer listed

/-- The control flow of a region stays within the region. -/
theorem Region.Built.within (built : region.Built) :
    (Control.of region.skeleton).Within region := by
  have size := built.size_accesses
  exact ⟨(Control.size_of _).trans size.symm,
    fun _ _ inside => size ▸ Control.successor_lt built.laid inside⟩

end Flow

namespace Checked

variable {region : Region}

theorem control_eq {skeleton : Skeleton} (laid : skeleton.Laid) :
    control skeleton = .ok (Control.of skeleton) := by
  have each : ∀ statement ∈ skeleton.statements.toList,
      ways skeleton statement = .ok (skeleton.ways statement) := by
    intro statement inside
    obtain ⟨s, stood⟩ := Array.getElem?_of_mem (Array.mem_toList_iff.1 inside)
    exact ways_eq laid stood
  have same : ({
      transfers := ((skeleton.statements.toList.map skeleton.ways).map fun ways =>
        ways.filterMap Control.transfer?).toArray
      exits := ((skeleton.statements.toList.map skeleton.ways).map fun ways =>
        (ways.filterMap Control.exit?).eraseDups).toArray
      entry := (skeleton.enter Skeleton.root).map Landing.statement } : Control) =
        Control.of skeleton := by
    simp [Control.of, ← Array.toList_inj]
  refine bind_eq (mapM_eq each) (bind_eq (enter_eq laid skeleton.root_lt) ?_)
  rw [same]
  refine bind_eq (forM_eq fun transfer inside => require_eq .statements ?_) rfl
  obtain ⟨transfers, listed, here⟩ := List.mem_flatten.1 inside
  rw [Control.size_of]
  exact Control.target_lt laid transfers listed transfer here

theorem siteOf_eq {statement : Nat} (there : statement < region.skeleton.statements.size) :
    ∃ site, siteOf region statement = .ok site ∧ region.siteOf? statement = some site := by
  have held := Array.getElem?_eq_getElem there
  exact ⟨_, bind_eq (entry_eq .statements held) rfl, by rw [Region.siteOf?, held]; rfl⟩

/-- Transfers to statements of the region get the sites of these. -/
theorem linksFrom_eq (site : Nat) {transfers : List Transfer}
    (there : ∀ transfer ∈ transfers, transfer.target < region.skeleton.statements.size) :
    (transfers.mapM fun transfer => do
      let target ← siteOf region transfer.target
      return { source := site, target, label := transfer.label : Control.Link }) =
      .ok (transfers.filterMap fun transfer => (region.siteOf? transfer.target).map fun target =>
        { source := site, target, label := transfer.label : Control.Link }) := by
  induction transfers with
  | nil => rfl
  | cons transfer rest ih =>
    obtain ⟨target, found, plain⟩ := siteOf_eq (there transfer List.mem_cons_self)
    rw [List.mapM_cons, List.filterMap_cons, plain]
    exact bind_eq (bind_eq found rfl)
      (bind_eq (ih fun other below => there other (List.mem_cons_of_mem _ below)) rfl)

theorem links_eq (laid : region.skeleton.Laid) : links region (Control.of region.skeleton) =
    .ok ((Control.of region.skeleton).links region) := by
  have first : (Control.of region.skeleton).entry.toList.mapM (siteOf region) =
      .ok ((Control.of region.skeleton).entry.bind region.siteOf?).toList := by
    cases given : (Control.of region.skeleton).entry with
    | none => rfl
    | some statement =>
      obtain ⟨site, found, plain⟩ := siteOf_eq (Control.entry_lt laid given)
      rw [Option.bind_some, plain]
      exact bind_eq found rfl
  refine bind_eq first (bind_eq (mapM_eq fun row inside =>
    linksFrom_eq row.1 (Control.target_lt laid row.2 (List.of_mem_zip inside).2)) ?_)
  rw [Control.links, List.flatMap_def]
  rfl

/-! ## Reaching definitions -/

theorem work_eq {control : Control} (within : control.Within region) {entry : List Definition}
    {work : Worklist} (consistent : Worklist.Consistent region control entry work) :
    Checked.work region control entry work = .ok (work.step region control entry) := by
  cases front : work.queue with
  | nil => simp [Checked.work, Worklist.step, front, pure, Except.pure]
  | cons s rest =>
    -- What waits is marked, and only the statements of the region have marks.
    have size := consistent.marked.size
    have inside : s < region.accesses.size :=
      consistent.marked.lt_of_mem (front ▸ List.mem_cons_self)
    have before : ∀ t ∈ control.predecessors s, t < work.outs.size := by
      intro t listed
      rw [consistent.outs_size, ← within.size]
      exact Control.lt_of_mem_successors (Control.mem_predecessors.1 listed)
    have behind : ∀ t ∈ control.successors s, t < work.queued.size :=
      fun t step => size ▸ within.target_lt s t step
    rw [Checked.work, front]
    exact bind_eq (require_eq .statements (size ▸ inside))
      (bind_eq (forM_eq fun t listed => require_eq .statements (before t listed))
      (bind_eq (require_eq .statements inside)
      (bind_eq (require_eq .statements (consistent.ins_size ▸ inside))
      (bind_eq (require_eq .statements (consistent.outs_size ▸ inside))
      (bind_eq (require_eq .statements (within.size ▸ inside))
      (bind_eq (forM_eq fun t step => require_eq .statements (behind t step)) rfl))))))

/-- The worklist has a place for every statement that it comes by, and ends. -/
theorem halts_work {control : Control} (within : control.Within region) (entry : List Definition) :
    ∃ last, Halts (loop (work region control entry)) (.ok (.start region.accesses.size)) (.ok last) ∧
      last.ins.toList = Reaching.before region control entry := by
  obtain ⟨last, halts⟩ := Worklist.exists_halts within entry
  refine ⟨last, halts_loop halts (Worklist.Consistent region control entry)
    (fun _ consistent => work_eq within consistent) (fun work next consistent taken => ?_)
    Worklist.consistent_start, Worklist.ins_of_halts within halts⟩
  obtain ⟨s, rest, moves⟩ := Worklist.moves_of_step within consistent.marked taken
  exact moves.consistent_after consistent

end Checked

end CodeGraph

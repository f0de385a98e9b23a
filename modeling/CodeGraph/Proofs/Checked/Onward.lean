import CodeGraph.Proofs.Checked.Control
import CodeGraph.Proofs.Flow.Traces

/-!
# The search for what comes next

Where control goes is found by a search that moves from block to block: into an arm, behind a statement,
out of a block, and from a case into the next arm, whatever role that plays (`Checked.onward`). What
encloses a block is found by a search outwards (`Checked.outward`). Both end in every region, at what
`Skeleton.leave` and `Skeleton.enclosing` give, however badly the arms fit their statements: going out of
a block leads to an older one, and inside a statement from arm to arm in the order of the arms. Control
then goes to statements of the region only, and it goes somewhere from every statement, apart from jumps
that nothing takes up (`Region.Built.control_total`).
-/

namespace CodeGraph

namespace Checked

/-! ## The two searches -/

/-- Where the search for what comes next is. -/
inductive Heading where
  | enter (block : Nat)
  | after (number : Nat)
  | leave (block : Nat)
  | landed (landing : Option Landing)

/-- The start of an arm of a statement, or what is behind the statement if there is no such arm. -/
def Heading.into (number : Nat) (arm : Option Nat) : Heading := (arm.map .enter).getD (.after number)

/-- One move of the search, with every block and every statement looked up. -/
def onward (skeleton : Skeleton) : Heading → Except Missing (Option Heading)
  | .enter block => do
    match ← first? skeleton block with
    | some first => return some (.landed (some { statement := first }))
    | none => return some (.leave block)
  | .after number => do
    let statement ← entry .statements skeleton.statements number
    match ← next? skeleton statement with
    | some next => return some (.landed (some { statement := next }))
    | none => return some (.leave statement.block)
  | .leave block => do
    let here ← entry .blocks skeleton.blocks block
    match here.owner with
    | none => return some (.landed none)
    | some (number, role) =>
      let statement ← entry .statements skeleton.statements number
      match role with
      | .whenTrue => return some (.after number)
      | .whenFalse => return some (.after number)
      | .cleanup => return some (.after number)
      | .loopBody => return some (.landed (some { statement := number, back := true }))
      | .guardedBody => return some (.into number (← arm? skeleton statement .cleanup))
      | .handler => return some (.into number (← arm? skeleton statement .cleanup))
      | .case _ => return some (.into number (Skeleton.armsAfter statement block).head?)
  | .landed _ => .ok none

/-- Where the search for what encloses a block is. -/
inductive Outlook where
  | inside (block : Nat)
  | over (found : Option (Nat × Statement))

/-- One move of the search outwards. -/
def outward (skeleton : Skeleton) (accepts : Statement → Role → Bool) :
    Outlook → Except Missing (Option Outlook)
  | .inside block => do
    let here ← entry .blocks skeleton.blocks block
    match here.owner with
    | none => return some (.over none)
    | some (number, role) =>
      let statement ← entry .statements skeleton.statements number
      if accepts statement role then return some (.over (some (number, statement)))
      else return some (.inside statement.block)
  | .over _ => .ok none

/-- The search for what comes next goes from one place to another. -/
abbrev Finds (skeleton : Skeleton) (start : Heading) (landing : Option Landing) : Prop :=
  Halts (loop (onward skeleton)) (.ok start) (.ok (.landed landing))

variable {skeleton : Skeleton} {s block arm : Nat} {statement : Statement} {role : Role}

/-- A move that comes by no missing number is a step of the loop. -/
theorem loop_next {State : Type} {step : State → Except Missing (Option State)} {start middle : State}
    {last : Except Missing State} (moves : step start = .ok (some middle))
    (onwards : Halts (loop step) (.ok middle) last) : Halts (loop step) (.ok start) last :=
  .next (by rw [loop, moves]) onwards

theorem finds_landed (landing : Option Landing) : Finds skeleton (.landed landing) landing := .ended rfl

/-! ## Where the search leads -/

theorem finds_enter (there : block < skeleton.blocks.size) {landing : Option Landing}
    (out : skeleton.first? block = none → Finds skeleton (.leave block) landing) :
    Finds skeleton (.enter block)
      (match skeleton.first? block with
        | some first => some { statement := first }
        | none => landing) := by
  cases first : skeleton.first? block with
  | some number =>
    exact loop_next (bind_eq (first?_eq there) (by rw [first]; rfl)) (finds_landed _)
  | none => exact loop_next (bind_eq (first?_eq there) (by rw [first]; rfl)) (out first)

theorem finds_after (stood : skeleton.statements[s]? = some statement)
    (out : Finds skeleton (.leave statement.block) (skeleton.leave statement.block)) :
    Finds skeleton (.after s) (skeleton.after statement) := by
  have next := next?_eq (skeleton.statement_lt s statement stood)
  unfold Skeleton.after
  cases given : skeleton.next? statement with
  | some number =>
    exact loop_next (bind_eq (entry_eq _ stood) (bind_eq next (by rw [given]; rfl))) (finds_landed _)
  | none => exact loop_next (bind_eq (entry_eq _ stood) (bind_eq next (by rw [given]; rfl))) out

theorem onward_free (there : block < skeleton.blocks.size) (free : skeleton.ownerOf? block = none) :
    onward skeleton (.leave block) = .ok (some (.landed none)) := by
  obtain ⟨here, held⟩ : ∃ here, skeleton.blocks[block]? = some here :=
    ⟨_, Array.getElem?_eq_getElem there⟩
  rw [Skeleton.ownerOf?, held, Option.bind_some] at free
  exact bind_eq (entry_eq _ held) (by rw [free]; rfl)

section Arms

variable (laid : skeleton.Laid) (stood : skeleton.statements[s]? = some statement)
  (behind : Finds skeleton (.after s) (skeleton.after statement))
include laid stood

theorem onward_owned (owned : skeleton.ownerOf? block = some (s, role)) :
    onward skeleton (.leave block) = .ok (some (match role with
      | .loopBody => .landed (some { statement := s, back := true })
      | .guardedBody => .into s (skeleton.arm? statement .cleanup)
      | .handler => .into s (skeleton.arm? statement .cleanup)
      | .case _ => .into s (Skeleton.armsAfter statement block).head?
      | _ => .after s)) := by
  obtain ⟨here, held, owner⟩ := Option.bind_eq_some_iff.1 owned
  refine bind_eq (entry_eq _ held) ?_
  simp only [owner]
  refine bind_eq (entry_eq _ stood) ?_
  cases role <;> first | rfl | exact bind_eq (arm?_eq laid stood .cleanup) rfl

include behind

/-- The search goes through a cleanup to what is behind its statement. -/
theorem finds_cleanup : Finds skeleton (.into s (skeleton.arm? statement .cleanup))
    (skeleton.intoCleanup statement (skeleton.after statement)) := by
  unfold Skeleton.intoCleanup
  cases found : skeleton.arm? statement .cleanup with
  | none => exact behind
  | some cleanup =>
    have owned := laid.owned_of_arm? stood found
    have whole : Finds skeleton (.enter cleanup) _ := finds_enter (arm?_there laid stood found)
      fun _ => loop_next (onward_owned laid stood owned) behind
    exact whole

theorem finds_pastArm (owned : skeleton.ownerOf? arm = some (s, role))
    (plain : ∀ isDefault, role ≠ .case isDefault) :
    Finds skeleton (.leave arm) (skeleton.pastArm s statement (skeleton.after statement) role) := by
  refine loop_next (onward_owned laid stood owned) ?_
  cases role with
  | loopBody => exact finds_landed _
  | guardedBody => exact finds_cleanup laid stood behind
  | handler => exact finds_cleanup laid stood behind
  | case isDefault => exact absurd rfl (plain isDefault)
  | _ => exact behind

/-- From an arm on, the search goes through empty cases until it is past the last arm or comes by one
that is not empty or no case. -/
theorem finds_throughArms {front back : List Nat} (split : statement.arms.toList = front ++ back) :
    Finds skeleton (.into s back.head?)
      (skeleton.throughArms s statement (skeleton.after statement) back) := by
  induction back generalizing front with
  | nil => exact behind
  | cons arm rest ih =>
    have inside : arm ∈ statement.arms.toList := by rw [split]; simp
    obtain ⟨role, owned⟩ := laid.owned stood inside
    have playing : skeleton.role? arm = some role := by rw [Skeleton.role?_eq, owned]; rfl
    rw [Skeleton.throughArms]
    refine finds_enter (laid.arm_gt stood inside).2 fun _ => ?_
    rw [playing]
    cases role with
    | case isDefault =>
      refine loop_next (onward_owned laid stood owned) ?_
      rw [Skeleton.armsAfter_split laid stood split]
      have past : statement.arms.toList = (front ++ [arm]) ++ rest := by rw [split]; simp
      exact ih past
    | _ => exact finds_pastArm laid stood behind owned (by simp)

theorem finds_beyond (owned : skeleton.ownerOf? arm = some (s, role)) :
    Finds skeleton (.leave arm) (skeleton.beyond s statement arm role) := by
  cases role with
  | case isDefault =>
    obtain ⟨front, back, split⟩ := List.append_of_mem ((laid.owns s statement arm stood).2 ⟨_, owned⟩)
    refine loop_next (onward_owned laid stood owned) ?_
    rw [Skeleton.beyond, Skeleton.armsAfter_split laid stood split]
    have past : statement.arms.toList = (front ++ [arm]) ++ back := by rw [split]; simp
    exact finds_throughArms laid stood behind past
  | _ => exact finds_pastArm laid stood behind owned (by simp)

end Arms

/-- The search out of a block ends where `Skeleton.leave` says. -/
theorem finds_leave (laid : skeleton.Laid) (there : block < skeleton.blocks.size) :
    Finds skeleton (.leave block) (skeleton.leave block) := by
  induction block using Nat.strongRecOn with
  | ind block ih =>
    cases owned : skeleton.ownerOf? block with
    | none =>
      rw [Skeleton.leave_of_free owned]
      exact loop_next (onward_free there owned) (finds_landed none)
    | some owner =>
      obtain ⟨s, role⟩ := owner
      obtain ⟨statement, stood, less⟩ := Skeleton.owner_stands owned
      -- The owner stands in an older block; what comes behind it is found by induction.
      have behind := finds_after stood (ih _ less (skeleton.statement_lt s statement stood))
      rw [Skeleton.leave_of_owned owned stood]
      exact finds_beyond laid stood behind owned

/-- The search outwards ends where `Skeleton.enclosing` says. -/
theorem halts_outward (skeleton : Skeleton) (accepts : Statement → Role → Bool)
    (there : block < skeleton.blocks.size) : Halts (loop (outward skeleton accepts))
      (.ok (.inside block)) (.ok (.over (skeleton.enclosing accepts block))) := by
  induction block using Nat.strongRecOn with
  | ind block ih =>
    obtain ⟨here, held⟩ : ∃ here, skeleton.blocks[block]? = some here :=
      ⟨_, Array.getElem?_eq_getElem there⟩
    cases owned : skeleton.ownerOf? block with
    | none =>
      have free : here.owner = none := by rwa [Skeleton.ownerOf?, held] at owned
      rw [Skeleton.enclosing_of_free owned]
      exact loop_next (bind_eq (entry_eq _ held) (by rw [free]; rfl)) (.ended rfl)
    | some owner =>
      obtain ⟨s, role⟩ := owner
      have owner : here.owner = some (s, role) := by rwa [Skeleton.ownerOf?, held] at owned
      obtain ⟨statement, stood, less⟩ := Skeleton.owner_stands owned
      have moves : outward skeleton accepts (.inside block) = .ok (some
          (if accepts statement role then .over (some (s, statement))
            else .inside statement.block)) := by
        refine bind_eq (entry_eq _ held) ?_
        simp only [owner]
        refine bind_eq (entry_eq _ stood) ?_
        split <;> rfl
      rw [Skeleton.enclosing_of_owned owned stood]
      refine loop_next moves ?_
      split
      · exact .ended rfl
      · exact ih _ less (skeleton.statement_lt s statement stood)

end Checked

/-! ## Jumps that nothing takes up -/

namespace Skeleton

/-- A jump that nothing takes up: a break with neither a loop nor a switch around it, or a continuation
inside the body of no loop. -/
def Astray (skeleton : Skeleton) (statement : Statement) : Prop :=
  statement.kind = .breaks ∧
      (∀ owner role, skeleton.Around statement.block owner role →
        owner.kind ≠ .loop ∧ owner.kind ≠ .switch) ∨
    statement.kind = .continues ∧
      ∀ owner role, skeleton.Around statement.block owner role →
        ¬ (role = .loopBody ∧ owner.kind = .loop)

variable {skeleton : Skeleton} {statement : Statement} {s : Nat}

/-- Nothing that encloses a block accepts just if nothing around it does. -/
theorem enclosing_eq_none_iff {accepts : Statement → Role → Bool} {block : Nat} :
    skeleton.enclosing accepts block = none ↔
      ∀ owner role, skeleton.Around block owner role → accepts owner role = false := by
  induction block using Nat.strongRecOn with
  | ind block ih =>
    cases owned : skeleton.ownerOf? block with
    | none =>
      refine iff_of_true (enclosing_of_free owned) fun owner role around => ?_
      cases around with
      | arm owned' _ => cases owned.symm.trans owned'
      | further owned' _ _ => cases owned.symm.trans owned'
    | some place =>
      obtain ⟨s, role⟩ := place
      obtain ⟨owner, stood, less⟩ := owner_stands owned
      rw [enclosing_of_owned owned stood]
      constructor
      · intro none owner' role' around
        split at none
        · cases none
        · next refused =>
          cases around with
          | arm owned' stood' =>
            obtain ⟨rfl, rfl⟩ := Prod.mk.inj (Option.some.inj (owned.symm.trans owned'))
            obtain rfl := Option.some.inj (stood.symm.trans stood')
            exact Bool.eq_false_iff.2 refused
          | further owned' stood' outer =>
            obtain ⟨rfl, -⟩ := Prod.mk.inj (Option.some.inj (owned.symm.trans owned'))
            obtain rfl := Option.some.inj (stood.symm.trans stood')
            exact (ih _ less).1 none owner' role' outer
      · intro refused
        rw [if_neg (Bool.eq_false_iff.1 (refused owner role (.arm owned stood)))]
        exact (ih _ less).2 fun owner' role' outer => refused owner' role' (.further owned stood outer)

/-- Of all kinds of statements only jumps can have no ways of their own. -/
theorem ownWays_eq_nil_iff : skeleton.ownWays statement = [] ↔ skeleton.Astray statement := by
  unfold Astray ownWays
  cases statement.kind with
  | breaks => simp [enclosing_eq_none_iff]
  | continues => simp [enclosing_eq_none_iff]
  | switch =>
    refine iff_of_false (fun none => ?_) (by simp)
    obtain ⟨noCases, noExit⟩ := List.append_eq_nil_iff.1 none
    rw [List.map_eq_nil_iff] at noCases
    simp [noCases] at noExit
  | _ => simp

/-- Only the last statement of a guarded body with a handler has a way into the handler. -/
theorem raisingWay_eq_none_iff (statement : Statement) :
    skeleton.raisingWay statement = none ↔ skeleton.isLast statement = false := by
  unfold raisingWay isLast raising ownerOf? statementsOf
  cases found : skeleton.blocks[statement.block]? with
  | none => simp
  | some here =>
    cases owner : here.owner with
    | none => simp [owner]
    | some place =>
      obtain ⟨number, role⟩ := place
      obtain ⟨outer, stood, -⟩ := skeleton.block_lt _ here number role found owner
      cases role with
      | guardedBody => simp [owner, stood, handlerWay, imp_iff_or_not, or_comm]
      | _ => simp [owner, stood]

theorem ways_eq_nil_iff : skeleton.ways statement = [] ↔
    skeleton.Astray statement ∧ skeleton.isLast statement = false := by
  rw [ways, List.append_eq_nil_iff, ownWays_eq_nil_iff, Option.toList_eq_nil_iff,
    raisingWay_eq_none_iff]

end Skeleton

namespace Control

/-- A statement from which control goes nowhere is one without ways. -/
theorem stuck_iff {skeleton : Skeleton} {s : Nat} {statement : Statement}
    (stood : skeleton.statements[s]? = some statement) :
    (of skeleton).transfersFrom s = [] ∧ (of skeleton).exitsOf s = [] ↔ skeleton.ways statement = [] := by
  have transfers : (of skeleton).transfersFrom s = (skeleton.ways statement).filterMap transfer? := by
    simp only [transfersFrom, of, Array.getElem?_map, stood, Option.map_some, Option.getD_some]
  constructor
  · rintro ⟨noTransfer, noExit⟩
    by_contra some
    obtain ⟨way, inside⟩ := List.exists_mem_of_ne_nil _ some
    cases lands : way.1 with
    | none => exact (exitsOf_ne_nil stood).2 ⟨way, inside, by rw [Skeleton.lands, lands]; rfl⟩ noExit
    | some landing =>
      rw [transfers, List.filterMap_eq_nil_iff] at noTransfer
      have none := noTransfer way inside
      rw [transfer?, lands] at none
      cases none
  · intro none
    refine ⟨by rw [transfers, none]; rfl, ?_⟩
    by_contra some
    obtain ⟨way, inside, -⟩ := (exitsOf_ne_nil stood).1 some
    rw [none] at inside
    cases inside

end Control

namespace Region

/-- The control flow of a region can be found, whatever arms its statements have. The search for what
comes next ends from the start and the end of every block and from behind every statement, and so does
the search outwards for whatever is asked; neither comes by a missing number, and they give what the
control flow is made of. Control goes to statements of the region only, and from every statement it goes
to one of these or out of the region, apart from jumps that nothing takes up: these go nowhere, unless
they are the last statement of a guarded body with a handler. -/
theorem Built.control_total {region : Region} (built : region.Built) :
    (∀ block, block < region.skeleton.blocks.size →
        Checked.Finds region.skeleton (.enter block) (region.skeleton.enter block) ∧
          Checked.Finds region.skeleton (.leave block) (region.skeleton.leave block)) ∧
      (∀ s statement, region.skeleton.statements[s]? = some statement →
        Checked.Finds region.skeleton (.after s) (region.skeleton.after statement)) ∧
      (∀ accepts block, block < region.skeleton.blocks.size →
        Halts (Checked.loop (Checked.outward region.skeleton accepts)) (.ok (.inside block))
          (.ok (.over (region.skeleton.enclosing accepts block)))) ∧
      Checked.control region.skeleton = .ok (Control.of region.skeleton) ∧
      (∀ s next, next ∈ (Control.of region.skeleton).successors s →
        next < region.skeleton.statements.size) ∧
      ∀ s statement, region.skeleton.statements[s]? = some statement →
        ((Control.of region.skeleton).transfersFrom s = [] ∧
            (Control.of region.skeleton).exitsOf s = [] ↔
          region.skeleton.Astray statement ∧ region.skeleton.isLast statement = false) := by
  have laid := built.laid
  have leaves : ∀ block, block < region.skeleton.blocks.size →
      Checked.Finds region.skeleton (.leave block) (region.skeleton.leave block) :=
    fun block there => Checked.finds_leave laid there
  refine ⟨fun block there => ⟨?enter, leaves block there⟩, fun s statement stood => ?after,
    fun accepts block there => Checked.halts_outward _ accepts there, Checked.control_eq laid,
    fun s next goes => Control.successor_lt laid goes, fun s statement stood => ?stuck⟩
  case enter => exact Checked.finds_enter there fun _ => leaves block there
  case after =>
    exact Checked.finds_after stood (leaves _ (region.skeleton.statement_lt s statement stood))
  case stuck => exact (Control.stuck_iff stood).trans Skeleton.ways_eq_nil_iff

/-- A switch with an empty case, an empty handler, a cleanup and the body of a loop, which holds a
continuation; and behind the switch a break. -/
def misfitting : Region :=
  let region : Region := (push { owner := none } 0 0 .switch).1
  let region := (region.addArm 0 (.case false)).1
  let region := (region.addArm 0 .handler).1
  let region := (region.addArm 0 .cleanup).1
  let region := (region.addArm 0 .loopBody).1
  let region := (region.push 3 1 .simple).1
  let region := (region.push 4 2 .continues).1
  (region.push 0 3 .breaks).1

theorem misfitting_built : misfitting.Built := by
  have switch := (Built.start none #[]).push 0 0 .switch (by decide)
  have case := switch.addArm 0 (.case false) (by decide)
  have handler := case.addArm 0 .handler (by decide)
  have cleanup := handler.addArm 0 .cleanup (by decide)
  have body := cleanup.addArm 0 .loopBody (by decide)
  have cleaned := body.push 3 1 .simple (by decide)
  have again := cleaned.push 4 2 .continues (by decide)
  exact again.push 0 3 .breaks (by decide)

/-- The empty case leads through the handler into the cleanup. Neither the continuation, which is in no
loop, nor the break leads anywhere. -/
theorem misfitting_total : misfitting.Built ∧
    Checked.Finds misfitting.skeleton (.enter 1) (some { statement := 1 }) ∧
    misfitting.skeleton.Astray ⟨2, .continues, 4, 0, #[]⟩ ∧
    (Control.of misfitting.skeleton).transfersFrom 3 = [] ∧
    (Control.of misfitting.skeleton).exitsOf 3 = [] := by
  obtain ⟨finds, -, -, -, -, goes⟩ := misfitting_built.control_total
  have enters : misfitting.skeleton.enter 1 = some { statement := 1 } := by decide +kernel
  have continuation : misfitting.skeleton.statements[2]? = some ⟨2, .continues, 4, 0, #[]⟩ := rfl
  have jump : misfitting.skeleton.statements[3]? = some ⟨3, .breaks, 0, 1, #[]⟩ := rfl
  have astray := ((goes 2 _ continuation).1 (by decide +kernel)).1
  have outside : misfitting.skeleton.Astray ⟨3, .breaks, 0, 1, #[]⟩ := by
    refine .inl ⟨rfl, fun owner role around => ?_⟩
    have free : misfitting.skeleton.ownerOf? 0 = none := misfitting_built.laid.root_free
    cases around with
    | arm owned _ => cases free.symm.trans owned
    | further owned _ _ => cases free.symm.trans owned
  obtain ⟨transfers, exits⟩ := (goes 3 _ jump).2 ⟨outside, rfl⟩
  exact ⟨misfitting_built, enters ▸ (finds 1 (by decide)).1, astray, transfers, exits⟩

end Region

end CodeGraph

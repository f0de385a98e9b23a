import CodeGraph.Flow.Control
import CodeGraph.Proofs.Flow.Code
import CodeGraph.Proofs.Flow.Layout

/-!
# The code of a skeleton, and where its blocks go on

`Skeleton.codeOf` reads the structured code of a block off a skeleton, arm by arm and downwards.
Control flow goes the other way: at the end of a block it is looked outwards for what comes next.
`Skeleton.resume` gathers what this look finds, by the outcome with which the block ends, and
`Skeleton.Ends` are the sequences of statements that a walk may go through from there on. For each
role that a block can play there is one law (`onwards_plain`, `onwards_loopBody`, …) that relates
what follows the arm to what follows the statement that owns it.
-/

namespace CodeGraph

open Continuation

namespace Skeleton

/-! ## Structured code -/

/-- The cases of a switch, each with the mark whether it is the default. -/
def casesOf (skeleton : Skeleton) (statement : Statement) : List (Nat × Bool) :=
  statement.arms.toList.filterMap fun arm =>
    match skeleton.role? arm with
    | some (.case isDefault) => some (arm, isDefault)
    | _ => none

/-- The code of a statement, given the code inside each of its arms. -/
def codeWith (skeleton : Skeleton) (inside : Nat → List Code) (s : Nat) : Code :=
  match skeleton.statements[s]? with
  | none => .single s .completes
  | some statement =>
    let arm (role : Role) := (skeleton.arm? statement role).map inside
    match statement.kind with
    | .simple => .single s .completes
    | .conditional => .conditional s ((arm .whenTrue).getD []) ((arm .whenFalse).getD [])
    | .loop => .loop s (arm .loopBody)
    | .switch => .switch s ((skeleton.casesOf statement).map fun entry => (entry.2, inside entry.1))
    | .guarded => .guarded s (arm .guardedBody) (arm .handler) ((arm .cleanup).getD [])
    | .returns => .single s .returns
    | .throws => .single s .throws
    | .breaks => .single s .breaks
    | .continues => .single s .continues

/-- The code of the statements of a block. The arms of a statement are younger than its block, so
going downwards ends; in a skeleton that is laid out every arm is (`codeOf_eq`). -/
def codeOf (skeleton : Skeleton) (block : Nat) : List Code :=
  (skeleton.statementsOf block).toList.map
    (skeleton.codeWith fun arm =>
      if _ : block < arm ∧ arm < skeleton.blocks.size then skeleton.codeOf arm else [])
termination_by skeleton.blocks.size - block

/-- The code of a statement. -/
def code (skeleton : Skeleton) (s : Nat) : Code := skeleton.codeWith skeleton.codeOf s

theorem mem_arms_of_arm? {skeleton : Skeleton} {statement : Statement} {role : Role} {arm : Nat}
    (found : skeleton.arm? statement role = some arm) : arm ∈ statement.arms.toList :=
  List.mem_of_find?_eq_some found

theorem role?_of_arm? {skeleton : Skeleton} {statement : Statement} {role : Role} {arm : Nat}
    (found : skeleton.arm? statement role = some arm) : skeleton.role? arm = some role := by
  have := List.find?_some found
  simpa using this

theorem mem_arms_of_casesOf {skeleton : Skeleton} {statement : Statement} {entry : Nat × Bool}
    (inside : entry ∈ skeleton.casesOf statement) :
    entry.1 ∈ statement.arms.toList ∧ skeleton.role? entry.1 = some (.case entry.2) := by
  obtain ⟨arm, there, made⟩ := List.mem_filterMap.1 inside
  split at made
  · next isDefault role =>
    obtain rfl := Option.some.inj made
    exact ⟨there, role⟩
  · cases made

theorem codeWith_congr {skeleton : Skeleton} {f g : Nat → List Code} {s : Nat}
    (same : ∀ statement, skeleton.statements[s]? = some statement →
      ∀ arm ∈ statement.arms.toList, f arm = g arm) :
    skeleton.codeWith f s = skeleton.codeWith g s := by
  unfold codeWith
  cases stood : skeleton.statements[s]? with
  | none => rfl
  | some statement =>
    have arms : ∀ role, (skeleton.arm? statement role).map f
        = (skeleton.arm? statement role).map g := by
      intro role
      cases found : skeleton.arm? statement role with
      | none => rfl
      | some arm => simp [same statement stood arm (mem_arms_of_arm? found)]
    have cases : (skeleton.casesOf statement).map (fun entry => (entry.2, f entry.1))
        = (skeleton.casesOf statement).map fun entry => (entry.2, g entry.1) := by
      refine List.map_congr_left fun entry inside => ?_
      rw [same statement stood entry.1 (mem_arms_of_casesOf inside).1]
    simp only [arms, cases]

theorem number_codeWith (skeleton : Skeleton) (inside : Nat → List Code) (s : Nat) :
    (skeleton.codeWith inside s).number = s := by
  unfold codeWith
  split
  · rfl
  · simp only
    split <;> rfl

theorem codeOf_eq {skeleton : Skeleton} (laid : skeleton.Laid) (block : Nat) :
    skeleton.codeOf block = (skeleton.statementsOf block).toList.map skeleton.code := by
  rw [codeOf]
  refine List.map_congr_left fun s inside => codeWith_congr fun statement stood arm below => ?_
  obtain ⟨index, held⟩ := List.getElem?_of_mem inside
  obtain ⟨other, found, place, -⟩ := laid.knows block index s (by simpa using held)
  obtain rfl : statement = other := Option.some.inj (stood.symm.trans found)
  rw [dif_pos (place ▸ laid.arm_gt stood below)]

/-! ## Where control lands -/

/-- The statement that control lands on; none outside of the body. -/
def lands (landing : Option Landing) : Option Nat := landing.map Landing.statement

/-- Where control is that comes to a place in a block: at the statement there, or at what the end
of the block leads to. -/
def arrive (skeleton : Skeleton) (block index : Nat) : Option Nat :=
  match (skeleton.statementsOf block)[index]? with
  | some s => some s
  | none => lands (skeleton.leave block)

theorem lands_enter (skeleton : Skeleton) (block : Nat) :
    lands (skeleton.enter block) = skeleton.arrive block 0 := by
  unfold enter first? arrive
  cases (skeleton.statementsOf block)[0]? <;> rfl

theorem lands_after (skeleton : Skeleton) (statement : Statement) :
    lands (skeleton.after statement) = skeleton.arrive statement.block (statement.index + 1) := by
  unfold after next? arrive
  cases (skeleton.statementsOf statement.block)[statement.index + 1]? <;> rfl

theorem leave_of_free {skeleton : Skeleton} {block : Nat}
    (free : skeleton.ownerOf? block = none) : skeleton.leave block = none := by
  rw [leave]
  split
  · rfl
  · next here found =>
    split
    · rfl
    · next number role owned =>
      rw [ownerOf?, found, Option.bind_some, owned] at free
      cases free

/-- Where control goes at the end of an arm of statement `s`, by the role of the arm. -/
def beyond (skeleton : Skeleton) (s : Nat) (statement : Statement) (arm : Nat) :
    Role → Option Landing
  | .case _ => skeleton.throughArms s statement (skeleton.after statement) (armsAfter statement arm)
  | role => skeleton.pastArm s statement (skeleton.after statement) role

theorem leave_of_owned {skeleton : Skeleton} {block s : Nat} {role : Role} {statement : Statement}
    (owned : skeleton.ownerOf? block = some (s, role))
    (stood : skeleton.statements[s]? = some statement) :
    skeleton.leave block = skeleton.beyond s statement block role := by
  obtain ⟨here, found, owner⟩ := Option.bind_eq_some_iff.1 owned
  rw [leave]
  split
  · next missing => rw [found] at missing; cases missing
  · next other held =>
    obtain rfl : here = other := Option.some.inj (found.symm.trans held)
    split
    · next free => rw [owner] at free; cases free
    · next number same ownedHere =>
      obtain ⟨rfl, rfl⟩ := Prod.mk.inj (Option.some.inj (owner.symm.trans ownedHere))
      split
      · next missing => rw [stood] at missing; cases missing
      · next other standing =>
        obtain rfl : statement = other := Option.some.inj (stood.symm.trans standing)
        cases role <;> rfl

theorem enclosing_of_free {skeleton : Skeleton} {accepts : Statement → Role → Bool} {block : Nat}
    (free : skeleton.ownerOf? block = none) : skeleton.enclosing accepts block = none := by
  rw [enclosing]
  split
  · rfl
  · next here found =>
    split
    · rfl
    · next number role owned =>
      rw [ownerOf?, found, Option.bind_some, owned] at free
      cases free

theorem enclosing_of_owned {skeleton : Skeleton} {accepts : Statement → Role → Bool}
    {block s : Nat} {role : Role} {statement : Statement}
    (owned : skeleton.ownerOf? block = some (s, role))
    (stood : skeleton.statements[s]? = some statement) :
    skeleton.enclosing accepts block =
      if accepts statement role then some (s, statement)
      else skeleton.enclosing accepts statement.block := by
  obtain ⟨here, found, owner⟩ := Option.bind_eq_some_iff.1 owned
  rw [enclosing]
  split
  · next missing => rw [found] at missing; cases missing
  · next other held =>
    obtain rfl : here = other := Option.some.inj (found.symm.trans held)
    split
    · next free => rw [owner] at free; cases free
    · next number same ownedHere =>
      obtain ⟨rfl, rfl⟩ := Prod.mk.inj (Option.some.inj (owner.symm.trans ownedHere))
      split
      · next missing => rw [stood] at missing; cases missing
      · next other standing =>
        obtain rfl : statement = other := Option.some.inj (stood.symm.trans standing)
        rfl

/-! ## What follows a block and a statement -/

/-- Whether a statement takes up a break from an arm. -/
def takesBreak (owner : Statement) (_ : Role) : Bool := owner.kind == .loop || owner.kind == .switch

/-- Whether a statement takes up a continuation from an arm. -/
def takesContinue (owner : Statement) (role : Role) : Bool :=
  role == .loopBody && owner.kind == .loop

/-- Whether a statement takes up a throw from an arm. -/
def takesThrow (skeleton : Skeleton) (owner : Statement) (role : Role) : Bool :=
  role == Role.guardedBody && (skeleton.arm? owner .handler).isSome

/-- Where control goes from a block that ends with an outcome: nowhere (`none`), out of the body
(`some none`), or to a statement. -/
def resume (skeleton : Skeleton) (block : Nat) : Outcome → Option (Option Nat)
  | .completes => some (lands (skeleton.leave block))
  | .breaks => (skeleton.enclosing takesBreak block).map fun owner =>
      skeleton.arrive owner.2.block (owner.2.index + 1)
  | .continues => (skeleton.enclosing takesContinue block).map fun owner => some owner.1
  | .returns => some none
  | .throws => some (((skeleton.enclosing skeleton.takesThrow block).bind fun owner =>
      skeleton.arm? owner.2 .handler).bind fun handler => skeleton.arrive handler 0)

/-- `Ends skeleton place trace`: a walk along the ways of the skeleton can go from `place` through
the statements `trace` and then out of the body. -/
inductive Ends (skeleton : Skeleton) : Option Nat → List Nat → Prop
  | out : Ends skeleton none []
  | step {s : Nat} {statement : Statement} {way : Way} {trace : List Nat} :
      skeleton.statements[s]? = some statement → way ∈ skeleton.ways statement →
      Ends skeleton (lands way.1) trace → Ends skeleton (some s) (s :: trace)

/-- What may follow the end of a block. -/
def onwards (skeleton : Skeleton) (block : Nat) : Continuation := fun o trace =>
  ∃ place, skeleton.resume block o = some place ∧ skeleton.Ends place trace

/-- What may follow a statement: the next one if it completes, else what follows its block. -/
def behind (skeleton : Skeleton) (statement : Statement) : Continuation :=
  (skeleton.onwards statement.block).completing
    (skeleton.Ends (skeleton.arrive statement.block (statement.index + 1)))

theorem onwards_completes {skeleton : Skeleton} {block : Nat} :
    skeleton.onwards block .completes = skeleton.Ends (lands (skeleton.leave block)) := by
  funext trace
  exact propext ⟨fun ⟨_, same, ends⟩ => Option.some.inj same ▸ ends, fun ends => ⟨_, rfl, ends⟩⟩

theorem onwards_returns {skeleton : Skeleton} {block : Nat} :
    skeleton.onwards block .returns = skeleton.Ends none := by
  funext trace
  exact propext ⟨fun ⟨_, same, ends⟩ => Option.some.inj same ▸ ends, fun ends => ⟨_, rfl, ends⟩⟩

section Arms

variable {skeleton : Skeleton} {s arm : Nat} {role : Role} {statement : Statement}

theorem resume_breaks (owned : skeleton.ownerOf? arm = some (s, role))
    (stood : skeleton.statements[s]? = some statement) :
    skeleton.resume arm .breaks =
      if takesBreak statement role then
        some (skeleton.arrive statement.block (statement.index + 1))
      else skeleton.resume statement.block .breaks := by
  unfold resume
  simp only
  rw [enclosing_of_owned owned stood]
  split <;> rfl

theorem resume_continues (owned : skeleton.ownerOf? arm = some (s, role))
    (stood : skeleton.statements[s]? = some statement) :
    skeleton.resume arm .continues =
      if takesContinue statement role then some (some s)
      else skeleton.resume statement.block .continues := by
  unfold resume
  simp only
  rw [enclosing_of_owned owned stood]
  split <;> rfl

theorem resume_throws (owned : skeleton.ownerOf? arm = some (s, role))
    (stood : skeleton.statements[s]? = some statement) :
    skeleton.resume arm .throws =
      if skeleton.takesThrow statement role then
        some ((skeleton.arm? statement .handler).bind fun handler => skeleton.arrive handler 0)
      else skeleton.resume statement.block .throws := by
  unfold resume
  simp only
  rw [enclosing_of_owned owned stood]
  split <;> rfl

/-- Whether a statement takes up a jump from an arm. -/
def takesUp (skeleton : Skeleton) (owner : Statement) (role : Role) : Outcome → Bool
  | .breaks => takesBreak owner role
  | .continues => takesContinue owner role
  | .throws => skeleton.takesThrow owner role
  | _ => false

/-- What follows a jump out of an arm that its statement does not take up is what follows the jump
out of the statement. -/
theorem onwards_of_passed {o : Outcome} (owned : skeleton.ownerOf? arm = some (s, role))
    (stood : skeleton.statements[s]? = some statement) (jumps : o ≠ .completes)
    (passed : skeleton.takesUp statement role o = false) :
    skeleton.onwards arm o = skeleton.behind statement o := by
  have same : skeleton.resume arm o = skeleton.resume statement.block o := by
    cases o with
    | completes => exact absurd rfl jumps
    | breaks =>
      rw [resume_breaks owned stood, if_neg]
      exact Bool.eq_false_iff.1 passed
    | continues =>
      rw [resume_continues owned stood, if_neg]
      exact Bool.eq_false_iff.1 passed
    | returns => rfl
    | throws =>
      rw [resume_throws owned stood, if_neg]
      exact Bool.eq_false_iff.1 passed
  funext trace
  cases o with
  | completes => exact absurd rfl jumps
  | _ => simp only [onwards, behind, completing, same]

/-- Where the end of a body or a handler leads to: the cleanup, or what is behind the statement. -/
def cleaned (skeleton : Skeleton) (statement : Statement) : Option Nat :=
  match skeleton.arm? statement .cleanup with
  | some cleanup => skeleton.arrive cleanup 0
  | none => skeleton.arrive statement.block (statement.index + 1)

theorem Laid.owned_of_arm? (laid : skeleton.Laid) (stood : skeleton.statements[s]? = some statement)
    (found : skeleton.arm? statement role = some arm) :
    skeleton.ownerOf? arm = some (s, role) := by
  obtain ⟨other, owned⟩ := laid.owned stood (mem_arms_of_arm? found)
  have same := role?_of_arm? found
  rw [role?_eq, owned] at same
  obtain rfl : other = role := Option.some.inj same
  exact owned

theorem lands_leave_plain (owned : skeleton.ownerOf? arm = some (s, role))
    (stood : skeleton.statements[s]? = some statement)
    (plain : role = .whenTrue ∨ role = .whenFalse ∨ role = .cleanup) :
    lands (skeleton.leave arm) = skeleton.arrive statement.block (statement.index + 1) := by
  rw [leave_of_owned owned stood, ← lands_after]
  rcases plain with rfl | rfl | rfl <;> rfl

theorem lands_leave_loopBody (owned : skeleton.ownerOf? arm = some (s, .loopBody))
    (stood : skeleton.statements[s]? = some statement) :
    lands (skeleton.leave arm) = some s := by
  rw [leave_of_owned owned stood]
  rfl

theorem lands_intoCleanup (laid : skeleton.Laid)
    (stood : skeleton.statements[s]? = some statement) :
    lands (skeleton.intoCleanup statement (skeleton.after statement)) =
      skeleton.cleaned statement := by
  unfold intoCleanup cleaned
  cases found : skeleton.arm? statement .cleanup with
  | none => exact lands_after skeleton statement
  | some cleanup =>
    have owned := laid.owned_of_arm? stood found
    have past := lands_leave_plain owned stood (.inr (.inr rfl))
    simp only [Option.bind_some, first?, arrive]
    cases (skeleton.statementsOf cleanup)[0]? with
    | none => rw [past]; exact lands_after skeleton statement
    | some first => rfl

theorem lands_leave_guarded (laid : skeleton.Laid) (owned : skeleton.ownerOf? arm = some (s, role))
    (stood : skeleton.statements[s]? = some statement)
    (inside : role = .guardedBody ∨ role = .handler) :
    lands (skeleton.leave arm) = skeleton.cleaned statement := by
  rw [leave_of_owned owned stood, ← lands_intoCleanup laid stood]
  rcases inside with rfl | rfl <;> rfl

/-- The arms of a conditional and a cleanup lead to what is behind the statement. -/
theorem onwards_plain (owned : skeleton.ownerOf? arm = some (s, role))
    (stood : skeleton.statements[s]? = some statement)
    (plain : role = .whenTrue ∨ role = .whenFalse ∨ role = .cleanup)
    (kind : statement.kind = .conditional ∨ statement.kind = .guarded) :
    skeleton.onwards arm = skeleton.behind statement := by
  have passed : ∀ o, skeleton.takesUp statement role o = false := by
    intro o
    rcases kind with kind | kind <;> rcases plain with rfl | rfl | rfl <;> cases o <;>
      simp [takesUp, takesBreak, takesContinue, takesThrow, kind]
  funext o
  cases o with
  | completes => rw [onwards_completes, lands_leave_plain owned stood plain]; rfl
  | _ => exact onwards_of_passed owned stood (by simp) (passed _)

/-- The body of a loop leads back to the loop. -/
theorem onwards_loopBody (owned : skeleton.ownerOf? arm = some (s, .loopBody))
    (stood : skeleton.statements[s]? = some statement) (kind : statement.kind = .loop) :
    skeleton.onwards arm = (skeleton.behind statement).looping (skeleton.Ends (some s)) := by
  funext o
  cases o with
  | completes => rw [onwards_completes, lands_leave_loopBody owned stood]; rfl
  | breaks =>
    funext trace
    simp [onwards, resume_breaks owned stood, takesBreak, kind, looping, behind, completing]
  | continues =>
    funext trace
    simp [onwards, resume_continues owned stood, takesContinue, kind, looping]
  | returns => exact onwards_of_passed owned stood (by simp) rfl
  | throws => exact onwards_of_passed owned stood (by simp) rfl

/-- A case leads through the cases behind it; a break leads to what is behind the switch. -/
theorem onwards_case {isDefault : Bool}
    (owned : skeleton.ownerOf? arm = some (s, .case isDefault))
    (stood : skeleton.statements[s]? = some statement) (kind : statement.kind = .switch) :
    skeleton.onwards arm = (skeleton.behind statement).switching.completing
      (skeleton.Ends (lands (skeleton.leave arm))) := by
  funext o
  cases o with
  | completes => exact onwards_completes
  | breaks =>
    funext trace
    simp [onwards, resume_breaks owned stood, takesBreak, kind, switching, behind, completing]
  | continues => exact onwards_of_passed owned stood (by simp) rfl
  | returns => exact onwards_of_passed owned stood (by simp) rfl
  | throws => exact onwards_of_passed owned stood (by simp) rfl

/-- A handler leads to the cleanup. -/
theorem onwards_handler (laid : skeleton.Laid)
    (owned : skeleton.ownerOf? arm = some (s, .handler))
    (stood : skeleton.statements[s]? = some statement) (kind : statement.kind = .guarded) :
    skeleton.onwards arm =
      (skeleton.behind statement).completing (skeleton.Ends (skeleton.cleaned statement)) := by
  funext o
  cases o with
  | completes => rw [onwards_completes, lands_leave_guarded laid owned stood (.inr rfl)]; rfl
  | breaks => exact onwards_of_passed owned stood (by simp) (by simp [takesUp, takesBreak, kind])
  | continues => exact onwards_of_passed owned stood (by simp) rfl
  | returns => exact onwards_of_passed owned stood (by simp) rfl
  | throws => exact onwards_of_passed owned stood (by simp) rfl

/-- A guarded body leads to the cleanup, and a throw leads to the handler, if there is one. -/
theorem onwards_guardedBody (laid : skeleton.Laid)
    (owned : skeleton.ownerOf? arm = some (s, .guardedBody))
    (stood : skeleton.statements[s]? = some statement) (kind : statement.kind = .guarded) :
    skeleton.onwards arm =
      (skeleton.behind statement).guarding (skeleton.Ends (skeleton.cleaned statement))
        (match skeleton.arm? statement .handler with
          | some handler => skeleton.Ends (skeleton.arrive handler 0)
          | none => skeleton.behind statement .throws) := by
  funext o
  cases o with
  | completes => rw [onwards_completes, lands_leave_guarded laid owned stood (.inl rfl)]; rfl
  | breaks => exact onwards_of_passed owned stood (by simp) (by simp [takesUp, takesBreak, kind])
  | continues => exact onwards_of_passed owned stood (by simp) rfl
  | returns => exact onwards_of_passed owned stood (by simp) rfl
  | throws =>
    cases found : skeleton.arm? statement .handler with
    | none =>
      have passed : skeleton.takesUp statement .guardedBody .throws = false := by
        simp [takesUp, takesThrow, found]
      exact onwards_of_passed owned stood (by simp) passed
    | some handler =>
      funext trace
      simp [onwards, resume_throws owned stood, takesThrow, found, guarding]

end Arms

end Skeleton

end CodeGraph

import CodeGraph.Flow.Skeleton

/-!
# Control flow between statements

Where control goes after each statement of a skeleton. Falling off the end of a block leads, by the
role of the block, behind the statement that owns it, back to a loop, into a cleanup block or into
the next case; what it finally reaches is a statement or the end of the body (`Skeleton.leave`).
`Skeleton.ways` lists the ways out of one statement, and `Control.of` gathers them for the whole
body: transfers to statements, and the labels of the ways that leave the body.
-/

namespace CodeGraph

/-- What a transfer of control is labelled with. -/
inductive Label where
  | entry
  | whenTrue
  | whenFalse
  | body
  | exit
  | case
  | exception
  | breaks
  | returns
  | back
deriving DecidableEq, Repr, Inhabited

/-- The text of a label. -/
def Label.text : Label → String
  | entry => "entry"
  | whenTrue => "true"
  | whenFalse => "false"
  | body => "body"
  | exit => "exit"
  | case => "case"
  | exception => "exception"
  | breaks => "break"
  | returns => "return"
  | back => "back"

/-- A statement that control reaches, and whether it gets there by going back to a loop. -/
structure Landing where
  statement : Nat
  back : Bool := false
deriving DecidableEq, Repr, Inhabited

/-- A transfer of control to a statement. -/
structure Transfer where
  target : Nat
  label : Option Label
deriving DecidableEq, Repr, Inhabited

namespace Skeleton

/-- Where control goes from an arm that leads into the cleanup block of its statement, if there is
one; `after` is what follows the statement. -/
def intoCleanup (skeleton : Skeleton) (statement : Statement) (after : Option Landing) :
    Option Landing :=
  match (skeleton.arm? statement .cleanup).bind skeleton.first? with
  | some first => some { statement := first }
  | none => after

/-- Where control goes at the end of an arm of statement `number` that is no case. -/
def pastArm (skeleton : Skeleton) (number : Nat) (statement : Statement)
    (after : Option Landing) : Role → Option Landing
  | .loopBody => some { statement := number, back := true }
  | .guardedBody => skeleton.intoCleanup statement after
  | .handler => skeleton.intoCleanup statement after
  | _ => after

/-- Where control goes that enters the first of the given arms of statement `number`: an empty case
leads into the next arm, and after the last arm comes what follows the statement. -/
def throughArms (skeleton : Skeleton) (number : Nat) (statement : Statement)
    (after : Option Landing) : List Nat → Option Landing
  | [] => after
  | arm :: rest =>
    match skeleton.first? arm with
    | some first => some { statement := first }
    | none =>
      match skeleton.role? arm with
      | some (.case _) => skeleton.throughArms number statement after rest
      | some role => skeleton.pastArm number statement after role
      | none => after

/-- The arms of a statement behind a given one. -/
def armsAfter (statement : Statement) (arm : Nat) : List Nat :=
  (statement.arms.toList.dropWhile (· ≠ arm)).drop 1

/-- Where control goes at the end of a block; nowhere at the end of the root. -/
def leave (skeleton : Skeleton) (block : Nat) : Option Landing :=
  match found : skeleton.blocks[block]? with
  | none => none
  | some here =>
    match owned : here.owner with
    | none => none
    | some (number, role) =>
      match stands : skeleton.statements[number]? with
      | none => none
      | some statement =>
        have : statement.block < block := by
          obtain ⟨other, held, less⟩ := skeleton.block_lt block here number role found owned
          rw [stands] at held
          cases held
          exact less
        -- The owner lies in an older block than its arm, so going outwards ends.
        let after :=
          match skeleton.next? statement with
          | some next => some { statement := next }
          | none => skeleton.leave statement.block
        match role with
        | .case _ =>
          skeleton.throughArms number statement after (armsAfter statement block)
        | role => skeleton.pastArm number statement after role
termination_by block

/-- Where control goes that enters a block. -/
def enter (skeleton : Skeleton) (block : Nat) : Option Landing :=
  match skeleton.first? block with
  | some first => some { statement := first }
  | none => skeleton.leave block

/-- Where control goes behind a statement. -/
def after (skeleton : Skeleton) (statement : Statement) : Option Landing :=
  match skeleton.next? statement with
  | some next => some { statement := next }
  | none => skeleton.leave statement.block

/-- The nearest statement around a block that accepts: it is asked with the role of the arm that
leads to the block. -/
def enclosing (skeleton : Skeleton) (accepts : Statement → Role → Bool) (block : Nat) :
    Option (Nat × Statement) :=
  match found : skeleton.blocks[block]? with
  | none => none
  | some here =>
    match owned : here.owner with
    | none => none
    | some (number, role) =>
      match stands : skeleton.statements[number]? with
      | none => none
      | some statement =>
        if accepts statement role then some (number, statement)
        else
          have : statement.block < block := by
            obtain ⟨other, held, less⟩ := skeleton.block_lt block here number role found owned
            rw [stands] at held
            cases held
            exact less
          skeleton.enclosing accepts statement.block
termination_by block

/-- A way out of a statement: where it lands, if not outside the body, and its label. -/
abbrev Way := Option Landing × Option Label

/-- The way into an arm of a statement, or behind the statement if it has no such arm. -/
def armOrAfter (skeleton : Skeleton) (statement : Statement) (role : Role) : Option Landing :=
  match skeleton.arm? statement role with
  | some arm => skeleton.enter arm
  | none => skeleton.after statement

/-- The way into the handler of a statement, if it has one. -/
def handlerWay (skeleton : Skeleton) (statement : Statement) : Option Way :=
  (skeleton.arm? statement .handler).map fun arm => (skeleton.enter arm, some .exception)

/-- The ways that the kind of a statement opens. -/
def ownWays (skeleton : Skeleton) (statement : Statement) : List Way :=
  match statement.kind with
  | .simple => [(skeleton.after statement, none)]
  | .conditional =>
    [(skeleton.armOrAfter statement .whenTrue, some .whenTrue),
     (skeleton.armOrAfter statement .whenFalse, some .whenFalse)]
  | .loop =>
    ((skeleton.arm? statement .loopBody).map fun arm =>
      (skeleton.enter arm, some Label.body)).toList
      ++ [(skeleton.after statement, some .exit)]
  | .switch =>
    let cases := statement.arms.toList.filterMap fun arm =>
      match skeleton.role? arm with
      | some (.case isDefault) => some (arm, isDefault)
      | _ => none
    cases.map (fun entry => (skeleton.enter entry.1, some Label.case))
      ++ if cases.any Prod.snd then [] else [(skeleton.after statement, some .exit)]
  | .guarded =>
    let body := skeleton.arm? statement .guardedBody
    -- A body without statements can still throw before it does anything.
    let nothingInside := (body.bind skeleton.first?).isNone
    (skeleton.armOrAfter statement .guardedBody, none)
      :: if nothingInside then (skeleton.handlerWay statement).toList else []
  | .throws =>
    let handles := fun owner role =>
      role == Role.guardedBody && (skeleton.arm? owner .handler).isSome
    let found := (skeleton.enclosing handles statement.block).bind fun owner =>
      skeleton.handlerWay owner.2
    [found.getD (none, some .exception)]
  | .breaks =>
    let target := skeleton.enclosing
      (fun owner _ => owner.kind == .loop || owner.kind == .switch) statement.block
    (target.map fun owner => (skeleton.after owner.2, some Label.breaks)).toList
  | .continues =>
    let target := skeleton.enclosing
      (fun owner role => role == .loopBody && owner.kind == .loop) statement.block
    (target.map fun owner =>
      (some { statement := owner.1, back := true }, none)).toList
  | .returns => [(none, some .returns)]

/-- The way into a handler that the last statement of a guarded body has. -/
def raisingWay (skeleton : Skeleton) (statement : Statement) : Option Way := do
  let block ← skeleton.blocks[statement.block]?
  let (number, role) ← block.owner
  let owner ← skeleton.statements[number]?
  if role = .guardedBody ∧ statement.index + 1 = block.statements.size then
    skeleton.handlerWay owner
  else none

/-- The ways out of a statement. -/
def ways (skeleton : Skeleton) (statement : Statement) : List Way :=
  skeleton.ownWays statement ++ (skeleton.raisingWay statement).toList

end Skeleton

/-- The control flow of a body. -/
structure Control where
  /-- The transfers from each statement. -/
  transfers : Array (List Transfer)
  /-- The labels of the ways from each statement out of the body. -/
  exits : Array (List Label)
  /-- The first statement of the body. -/
  entry : Option Nat

namespace Control

/-- The transfer that a way makes, unless it leaves the body. Going back to a loop has a label of
its own. -/
def transfer? (way : Skeleton.Way) : Option Transfer :=
  way.1.map fun landing =>
    { target := landing.statement, label := if landing.back then some .back else way.2 }

/-- The label of a way that leaves the body. -/
def exit? (way : Skeleton.Way) : Option Label :=
  match way.1 with
  | some _ => none
  | none => some (way.2.getD .exit)

/-- The control flow of a skeleton. -/
def of (skeleton : Skeleton) : Control where
  transfers := skeleton.statements.map fun statement =>
    (skeleton.ways statement).filterMap transfer?
  exits := skeleton.statements.map fun statement =>
    ((skeleton.ways statement).filterMap exit?).eraseDups
  entry := (skeleton.enter Skeleton.root).map Landing.statement

/-- The transfers from a statement. -/
def transfersFrom (control : Control) (statement : Nat) : List Transfer :=
  control.transfers[statement]?.getD []

/-- The statements that control goes to from a statement. -/
def successors (control : Control) (statement : Nat) : List Nat :=
  (control.transfersFrom statement).map Transfer.target

/-- The statements that control comes from to a statement, in order. -/
def predecessors (control : Control) (statement : Nat) : List Nat :=
  (List.range control.transfers.size).filter fun source =>
    (control.successors source).contains statement

end Control

end CodeGraph

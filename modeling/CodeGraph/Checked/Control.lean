import CodeGraph.Checked.Table
import CodeGraph.Flow.Edges
import CodeGraph.Flow.Worklist

/-!
# Control flow and data flow by numbers that have entries

Where control goes, as `Control.of` tells it, with every block and every statement looked up
(`Checked.control`), and then the nodes between which it passes (`Checked.links`). The statements that
control goes to have to be statements of the region, for the worklist of the reaching definitions has
places for these and for no others (`Checked.work`).
-/

namespace CodeGraph

namespace Checked

variable (skeleton : Skeleton)

/-- The first statement of a block. -/
def first? (block : Nat) : Except Missing (Option Nat) := do
  let here ← entry .blocks skeleton.blocks block
  return here.statements[0]?

/-- The statement that follows a statement in its block. -/
def next? (statement : Statement) : Except Missing (Option Nat) := do
  let here ← entry .blocks skeleton.blocks statement.block
  return here.statements[statement.index + 1]?

/-- The role of a block in the statement that owns it. -/
def role? (block : Nat) : Except Missing (Option Role) := do
  let here ← entry .blocks skeleton.blocks block
  return here.owner.map Prod.snd

/-- The first arm of a list that plays a given role. -/
def armIn (role : Role) : List Nat → Except Missing (Option Nat)
  | [] => .ok none
  | arm :: rest => do
    if (← role? skeleton arm) == some role then return some arm
    else armIn role rest

/-- The first arm of a statement that plays a given role. -/
def arm? (statement : Statement) (role : Role) : Except Missing (Option Nat) :=
  armIn skeleton role statement.arms.toList

/-- Where control goes that enters a block, if the block is not empty. -/
def enterOr (block : Nat) (otherwise : Except Missing (Option Landing)) :
    Except Missing (Option Landing) := do
  match ← first? skeleton block with
  | some first => return some { statement := first }
  | none => otherwise

/-- Where control goes from an arm that leads into the cleanup block of its statement, if there is
one. -/
def intoCleanup (statement : Statement) (after : Option Landing) :
    Except Missing (Option Landing) := do
  match ← arm? skeleton statement .cleanup with
  | some arm => enterOr skeleton arm (.ok after)
  | none => return after

/-- Where control goes at the end of an arm that is no case. -/
def pastArm (number : Nat) (statement : Statement) (after : Option Landing) :
    Role → Except Missing (Option Landing)
  | .loopBody => .ok (some { statement := number, back := true })
  | .guardedBody => intoCleanup skeleton statement after
  | .handler => intoCleanup skeleton statement after
  | _ => .ok after

/-- Where control goes that enters the first of the given arms. -/
def throughArms (number : Nat) (statement : Statement) (after : Option Landing) :
    List Nat → Except Missing (Option Landing)
  | [] => .ok after
  | arm :: rest =>
    enterOr skeleton arm do
      match ← role? skeleton arm with
      | some (.case _) => throughArms number statement after rest
      | some role => pastArm skeleton number statement after role
      | none => return after

/-- Where control goes at the end of a block. -/
def leave (block : Nat) : Except Missing (Option Landing) :=
  match found : skeleton.blocks[block]? with
  | none => .error ⟨.blocks, block⟩
  | some here =>
    match owned : here.owner with
    | none => .ok none
    | some (number, role) =>
      match stands : skeleton.statements[number]? with
      | none => .error ⟨.statements, number⟩
      | some statement =>
        have : statement.block < block := by
          obtain ⟨other, held, less⟩ := skeleton.block_lt block here number role found owned
          rw [stands] at held
          cases held
          exact less
        do
          let next ← next? skeleton statement
          let after ← (match next with
            | some next => .ok (some { statement := next })
            | none => leave statement.block : Except Missing (Option Landing))
          match role with
          | .case _ => throughArms skeleton number statement after (Skeleton.armsAfter statement block)
          | role => pastArm skeleton number statement after role
termination_by block

/-- Where control goes that enters a block. -/
def enter (block : Nat) : Except Missing (Option Landing) :=
  enterOr skeleton block (leave skeleton block)

/-- Where control goes behind a statement. -/
def after (statement : Statement) : Except Missing (Option Landing) := do
  match ← next? skeleton statement with
  | some next => return some { statement := next }
  | none => leave skeleton statement.block

/-- The nearest statement around a block that accepts. -/
def enclosing (accepts : Statement → Role → Except Missing Bool) (block : Nat) :
    Except Missing (Option (Nat × Statement)) :=
  match found : skeleton.blocks[block]? with
  | none => .error ⟨.blocks, block⟩
  | some here =>
    match owned : here.owner with
    | none => .ok none
    | some (number, role) =>
      match stands : skeleton.statements[number]? with
      | none => .error ⟨.statements, number⟩
      | some statement => do
        if ← accepts statement role then return some (number, statement)
        else
          have : statement.block < block := by
            obtain ⟨other, held, less⟩ := skeleton.block_lt block here number role found owned
            rw [stands] at held
            cases held
            exact less
          enclosing accepts statement.block
termination_by block

/-- The way into an arm of a statement, or behind the statement if it has no such arm. -/
def armOrAfter (statement : Statement) (role : Role) : Except Missing (Option Landing) := do
  match ← arm? skeleton statement role with
  | some arm => enter skeleton arm
  | none => after skeleton statement

/-- The way into an arm of a statement, if it has one. -/
def armWay (statement : Statement) (role : Role) (label : Label) :
    Except Missing (Option Skeleton.Way) := do
  match ← arm? skeleton statement role with
  | some arm => return some (← enter skeleton arm, some label)
  | none => return none

/-- The ways into the cases of a list of arms, and which of them are defaults. -/
def caseWays : List Nat → Except Missing (List (Skeleton.Way × Bool))
  | [] => .ok []
  | arm :: rest => do
    match ← role? skeleton arm with
    | some (.case isDefault) =>
      let landing ← enter skeleton arm
      return ((landing, some .case), isDefault) :: (← caseWays rest)
    | _ => caseWays rest

/-- The ways that the kind of a statement opens. -/
def ownWays (statement : Statement) : Except Missing (List Skeleton.Way) := do
  match statement.kind with
  | .simple => return [(← after skeleton statement, none)]
  | .conditional =>
    let whenTrue ← armOrAfter skeleton statement .whenTrue
    let whenFalse ← armOrAfter skeleton statement .whenFalse
    return [(whenTrue, some .whenTrue), (whenFalse, some .whenFalse)]
  | .loop =>
    let body ← armWay skeleton statement .loopBody .body
    return body.toList ++ [(← after skeleton statement, some .exit)]
  | .switch =>
    let cases ← caseWays skeleton statement.arms.toList
    let past ← after skeleton statement
    return cases.map Prod.fst ++ if cases.any Prod.snd then [] else [(past, some .exit)]
  | .guarded =>
    let body ← arm? skeleton statement .guardedBody
    let first ← (match body with
      | some arm => first? skeleton arm
      | none => .ok none : Except Missing (Option Nat))
    let inside ← armOrAfter skeleton statement .guardedBody
    let handler ← armWay skeleton statement .handler .exception
    return (inside, none) :: if first.isNone then handler.toList else []
  | .throws =>
    let handles := fun owner role => do
      return role == Role.guardedBody && (← arm? skeleton owner .handler).isSome
    match ← enclosing skeleton handles statement.block with
    | some owner =>
      return [(← armWay skeleton owner.2 .handler .exception).getD (none, some .exception)]
    | none => return [(none, some .exception)]
  | .breaks =>
    let target ← enclosing skeleton
      (fun owner _ => .ok (owner.kind == .loop || owner.kind == .switch)) statement.block
    match target with
    | some owner => return [(← after skeleton owner.2, some .breaks)]
    | none => return []
  | .continues =>
    let target ← enclosing skeleton
      (fun owner role => .ok (role == .loopBody && owner.kind == .loop)) statement.block
    return (target.map fun owner =>
      (some { statement := owner.1, back := true }, none)).toList
  | .returns => return [(none, some .returns)]

/-- The way into a handler that the last statement of a guarded body has. -/
def raisingWay (statement : Statement) : Except Missing (Option Skeleton.Way) := do
  let block ← entry .blocks skeleton.blocks statement.block
  match block.owner with
  | none => return none
  | some (number, role) =>
    let owner ← entry .statements skeleton.statements number
    if role = .guardedBody ∧ statement.index + 1 = block.statements.size then
      armWay skeleton owner .handler .exception
    else return none

/-- The ways out of a statement. -/
def ways (statement : Statement) : Except Missing (List Skeleton.Way) := do
  let own ← ownWays skeleton statement
  let raising ← raisingWay skeleton statement
  return own ++ raising.toList

/-- The control flow of a skeleton. All statements that it goes to are looked up, for its predecessors
are found by them. -/
def control : Except Missing Control := do
  let ways ← skeleton.statements.toList.mapM (ways skeleton)
  let first ← enter skeleton Skeleton.root
  let control : Control :=
    { transfers := (ways.map fun ways => ways.filterMap Control.transfer?).toArray
      exits := (ways.map fun ways => (ways.filterMap Control.exit?).eraseDups).toArray
      entry := first.map Landing.statement }
  control.transfers.toList.flatten.forM fun transfer =>
    require .statements control.transfers transfer.target
  return control

variable {skeleton}

/-- The site of a statement. -/
def siteOf (region : Region) (statement : Nat) : Except Missing Nat := do
  let held ← entry .statements region.skeleton.statements statement
  return held.site

/-- The transfers of a region between nodes. -/
def links (region : Region) (control : Control) : Except Missing (List Control.Link) := do
  let sites := region.skeleton.statements.toList.map Statement.site
  let first ← control.entry.toList.mapM (siteOf region)
  let atEnds :=
    match region.owner with
    | none => []
    | some owner =>
      let entry := first.map fun site =>
        { source := owner, target := site, label := some .entry : Control.Link }
      let exits := (sites.zip control.exits.toList).flatMap fun (site, labels) =>
        labels.map fun label =>
          { source := site, target := owner, label := some label : Control.Link }
      entry ++ exits
  let inside ← (sites.zip control.transfers.toList).mapM fun (site, transfers) =>
    transfers.mapM fun transfer => do
      let target ← siteOf region transfer.target
      return { source := site, target, label := transfer.label : Control.Link }
  return atEnds ++ inside.flatten

/-- Work out the sets of the statement in front. -/
def work (region : Region) (control : Control) (entry : List Definition) (work : Worklist) :
    Except Missing (Option Worklist) := do
  match work.queue with
  | [] => return none
  | s :: _ =>
    require .statements work.queued s
    (control.predecessors s).forM (require .statements work.outs)
    require .statements region.accesses s
    require .statements work.ins s
    require .statements work.outs s
    require .statements control.transfers s
    (control.successors s).forM (require .statements work.queued)
    return work.step region control entry

end Checked

end CodeGraph

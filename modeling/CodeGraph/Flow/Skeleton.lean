/-!
# Statement skeletons

The skeleton of a function body: its statements, grouped into blocks. The root block is number 0;
every other block is an *arm* of a compound statement and plays a role in it. Statements and blocks
are numbered in the order in which they are added, and one can only be added to what is there, so
the statement that owns an arm lies in an older block than the arm (`Skeleton.block_lt`). This is
why walking outwards ends.
-/

namespace CodeGraph

/-- How a statement passes on control. -/
inductive StatementKind where
  | simple
  | conditional
  | loop
  | switch
  | guarded
  | returns
  | throws
  | breaks
  | continues
deriving DecidableEq, Repr, Inhabited

/-- The part that a block plays in the statement that owns it. -/
inductive Role where
  | whenTrue
  | whenFalse
  | loopBody
  | guardedBody
  | handler
  | cleanup
  | case (isDefault : Bool)
deriving DecidableEq, Repr, Inhabited

/-- A block: the statement that owns it with the role it plays there, unless it is the root, and its
statements in order. -/
structure Block where
  owner : Option (Nat × Role)
  statements : Array Nat := #[]
deriving Repr, Inhabited

/-- A statement: the node that stands for it, its kind, its place, and the blocks that it owns. -/
structure Statement where
  site : Nat
  kind : StatementKind
  block : Nat
  index : Nat
  arms : Array Nat := #[]
deriving Repr, Inhabited

/-- The statements of a body, grouped into blocks. -/
structure Skeleton where
  blocks : Array Block
  statements : Array Statement
  root_lt : 0 < blocks.size
  /-- Every statement lies in a block. -/
  statement_lt : ∀ (s : Nat) (statement : Statement),
    statements[s]? = some statement → statement.block < blocks.size
  /-- The statement that owns a block lies in an older block. -/
  block_lt : ∀ (b : Nat) (block : Block) (s : Nat) (role : Role),
    blocks[b]? = some block → block.owner = some (s, role) →
      ∃ statement, statements[s]? = some statement ∧ statement.block < b

namespace Skeleton

/-- The number of the root block. -/
def root : Nat := 0

/-- The skeleton of an empty body. -/
def empty : Skeleton where
  blocks := #[{ owner := none }]
  statements := #[]
  root_lt := by simp
  statement_lt := by simp
  block_lt := by
    intro b block s role found owned
    cases b with
    | zero => simp at found; subst found; simp at owned
    | succ n => simp at found

/-- The block that a statement is put into: the one asked for, if it exists, else the root. -/
def blockIn (skeleton : Skeleton) (block : Nat) : Nat :=
  if block < skeleton.blocks.size then block else root

theorem blockIn_lt (skeleton : Skeleton) (block : Nat) :
    skeleton.blockIn block < skeleton.blocks.size := by
  unfold blockIn
  split
  · assumption
  · exact skeleton.root_lt

/-- The statements of a block. -/
def statementsOf (skeleton : Skeleton) (block : Nat) : Array Nat :=
  (skeleton.blocks[block]?.map Block.statements).getD #[]

/-- Add a statement at the end of a block. -/
def push (skeleton : Skeleton) (block site : Nat) (kind : StatementKind) : Skeleton × Nat :=
  let place := skeleton.blockIn block
  let number := skeleton.statements.size
  let statement : Statement :=
    { site, kind, block := place, index := (skeleton.statementsOf place).size }
  ({ blocks := skeleton.blocks.modify place fun block =>
       { block with statements := block.statements.push number }
     statements := skeleton.statements.push statement
     root_lt := by simpa using skeleton.root_lt
     statement_lt := by
      intro s after found
      rw [Array.getElem?_push] at found
      rw [Array.size_modify]
      split at found
      · obtain rfl := Option.some.inj found
        exact skeleton.blockIn_lt block
      · exact skeleton.statement_lt s after found
     block_lt := by
      intro b block s role found owned
      have kept : ∃ old, skeleton.blocks[b]? = some old ∧ old.owner = some (s, role) := by
        rw [Array.getElem?_modify] at found
        split at found
        · obtain ⟨old, held, rfl⟩ := Option.map_eq_some_iff.1 found
          exact ⟨old, held, owned⟩
        · exact ⟨block, found, owned⟩
      obtain ⟨old, held, owner⟩ := kept
      obtain ⟨statement, stands, less⟩ := skeleton.block_lt b old s role held owner
      refine ⟨statement, ?_, less⟩
      have inside : s < skeleton.statements.size := (Array.getElem?_eq_some_iff.1 stands).1
      rw [Array.getElem?_push, if_neg (Nat.ne_of_lt inside)]
      exact stands },
   number)

/-- Add an empty block as the last arm of a statement. -/
def addArm (skeleton : Skeleton) (statement : Nat) (role : Role) : Skeleton × Nat :=
  let number := skeleton.blocks.size
  let owner := if statement < skeleton.statements.size then some (statement, role) else none
  ({ blocks := skeleton.blocks.push { owner }
     statements := skeleton.statements.modify statement fun owner =>
       { owner with arms := owner.arms.push number }
     root_lt := by simp
     statement_lt := by
      intro s after found
      rw [Array.size_push]
      have kept : ∃ old, skeleton.statements[s]? = some old ∧ old.block = after.block := by
        rw [Array.getElem?_modify] at found
        split at found
        · obtain ⟨old, held, rfl⟩ := Option.map_eq_some_iff.1 found
          exact ⟨old, held, rfl⟩
        · exact ⟨after, found, rfl⟩
      obtain ⟨old, held, same⟩ := kept
      have := skeleton.statement_lt s old held
      omega
     block_lt := by
      intro b block s role found owned
      have kept : ∃ old, skeleton.statements[s]? = some old ∧ old.block < b := by
        rw [Array.getElem?_push] at found
        split at found
        · rename_i last
          obtain rfl := Option.some.inj found
          simp only [owner, Option.ite_none_right_eq_some, Option.some.injEq, Prod.mk.injEq]
            at owned
          obtain ⟨inside, rfl, -⟩ := owned
          have stands := Array.getElem?_eq_getElem inside
          exact ⟨_, stands, last ▸ skeleton.statement_lt _ _ stands⟩
        · exact skeleton.block_lt b block s role found owned
      obtain ⟨old, held, less⟩ := kept
      rw [Array.getElem?_modify]
      split
      · exact ⟨_, congrArg (Option.map _) held, less⟩
      · exact ⟨old, held, less⟩ },
   number)

/-- The role of a block in the statement that owns it. -/
def role? (skeleton : Skeleton) (block : Nat) : Option Role :=
  skeleton.blocks[block]?.bind fun block => block.owner.map Prod.snd

/-- The first arm of a statement that plays a given role. -/
def arm? (skeleton : Skeleton) (statement : Statement) (role : Role) : Option Nat :=
  statement.arms.toList.find? fun arm => skeleton.role? arm == some role

/-- The first statement of a block. -/
def first? (skeleton : Skeleton) (block : Nat) : Option Nat :=
  (skeleton.statementsOf block)[0]?

/-- The statement that follows a statement in its block. -/
def next? (skeleton : Skeleton) (statement : Statement) : Option Nat :=
  (skeleton.statementsOf statement.block)[statement.index + 1]?

/-- The kind of a statement. -/
def kind? (skeleton : Skeleton) (statement : Nat) : Option StatementKind :=
  skeleton.statements[statement]?.map Statement.kind

end Skeleton

end CodeGraph

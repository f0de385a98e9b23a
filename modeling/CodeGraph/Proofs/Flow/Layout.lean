import CodeGraph.Flow.Region

/-!
# How regions are laid out

A region is filled by adding statements to blocks, arms to statements, and accesses
(`Region.Built`). `Skeleton.Laid` is what then holds of its skeleton: statements and blocks know
each other's places, the arms of a statement are the blocks that it owns, and the root is owned by
nothing. Adding in any order keeps this (`Region.Built.laid`). Whether the arms fit the statements
that own them is a condition of its own (`Skeleton.ArmsFit`).
-/

namespace CodeGraph

namespace Skeleton

/-- The statement that owns a block, with the role of the block in it. -/
def ownerOf? (skeleton : Skeleton) (block : Nat) : Option (Nat × Role) :=
  skeleton.blocks[block]?.bind Block.owner

theorem role?_eq (skeleton : Skeleton) (block : Nat) :
    skeleton.role? block = (skeleton.ownerOf? block).map Prod.snd := by
  unfold role? ownerOf?
  cases skeleton.blocks[block]? <;> rfl

/-- What holds of a skeleton that was built by adding statements and arms. -/
structure Laid (skeleton : Skeleton) : Prop where
  /-- A statement stands in its block, at its index. -/
  stands : ∀ (s : Nat) (statement : Statement), skeleton.statements[s]? = some statement →
    (skeleton.statementsOf statement.block)[statement.index]? = some s
  /-- What stands in a block is a statement that knows its place. -/
  knows : ∀ block index s : Nat, (skeleton.statementsOf block)[index]? = some s →
    ∃ statement : Statement, skeleton.statements[s]? = some statement ∧
      statement.block = block ∧ statement.index = index
  /-- The arms of a statement are the blocks that it owns. -/
  owns : ∀ (s : Nat) (statement : Statement) (arm : Nat), skeleton.statements[s]? = some statement →
    (arm ∈ statement.arms.toList ↔ ∃ role, skeleton.ownerOf? arm = some (s, role))
  /-- Nothing owns the root. -/
  root_free : skeleton.ownerOf? root = none
  /-- The arms of a statement are listed in the order in which they were added. -/
  arms_sorted : ∀ (s : Nat) (statement : Statement), skeleton.statements[s]? = some statement →
    statement.arms.toList.Pairwise (· < ·)

/-! ## What adding changes -/

theorem statementsOf_push (skeleton : Skeleton) (block site : Nat) (kind : StatementKind)
    (other : Nat) :
    (skeleton.push block site kind).1.statementsOf other =
      if skeleton.blockIn block = other then
        (skeleton.statementsOf other).push skeleton.statements.size
      else skeleton.statementsOf other := by
  have inside := skeleton.blockIn_lt block
  simp only [push, statementsOf, Array.getElem?_modify]
  split
  · next same =>
    subst same
    rw [Array.getElem?_eq_getElem inside]
    rfl
  · rfl

theorem ownerOf?_push (skeleton : Skeleton) (block site : Nat) (kind : StatementKind)
    (other : Nat) :
    (skeleton.push block site kind).1.ownerOf? other = skeleton.ownerOf? other := by
  simp only [push, ownerOf?, Array.getElem?_modify]
  split
  · cases skeleton.blocks[other]? <;> rfl
  · rfl

theorem statements_push (skeleton : Skeleton) (block site : Nat) (kind : StatementKind) :
    (skeleton.push block site kind).1.statements = skeleton.statements.push
      { site, kind, block := skeleton.blockIn block
        index := (skeleton.statementsOf (skeleton.blockIn block)).size } :=
  rfl

theorem statementsOf_addArm (skeleton : Skeleton) (statement : Nat) (role : Role) (other : Nat) :
    (skeleton.addArm statement role).1.statementsOf other = skeleton.statementsOf other := by
  simp only [addArm, statementsOf, Array.getElem?_push]
  split
  · next same =>
    subst same
    rw [Array.getElem?_eq_none (Nat.le_refl _)]
    rfl
  · rfl

theorem ownerOf?_addArm (skeleton : Skeleton) {statement : Nat}
    (there : statement < skeleton.statements.size) (role : Role) (other : Nat) :
    (skeleton.addArm statement role).1.ownerOf? other =
      if other = skeleton.blocks.size then some (statement, role)
      else skeleton.ownerOf? other := by
  simp only [addArm, ownerOf?, Array.getElem?_push, if_pos there]
  split <;> rfl

theorem statements_addArm (skeleton : Skeleton) (statement : Nat) (role : Role) :
    (skeleton.addArm statement role).1.statements = skeleton.statements.modify statement
      fun owner => { owner with arms := owner.arms.push skeleton.blocks.size } :=
  rfl

@[simp] theorem size_statements_push (skeleton : Skeleton) (block site : Nat) (kind : StatementKind) :
    (skeleton.push block site kind).1.statements.size = skeleton.statements.size + 1 :=
  Array.size_push _

@[simp] theorem size_blocks_push (skeleton : Skeleton) (block site : Nat) (kind : StatementKind) :
    (skeleton.push block site kind).1.blocks.size = skeleton.blocks.size :=
  Array.size_modify

@[simp] theorem size_statements_addArm (skeleton : Skeleton) (statement : Nat) (role : Role) :
    (skeleton.addArm statement role).1.statements.size = skeleton.statements.size :=
  Array.size_modify

@[simp] theorem size_blocks_addArm (skeleton : Skeleton) (statement : Nat) (role : Role) :
    (skeleton.addArm statement role).1.blocks.size = skeleton.blocks.size + 1 :=
  Array.size_push _

/-- A statement is added to those that are there. -/
theorem kept_push (skeleton : Skeleton) (block site : Nat) (kind : StatementKind) {s : Nat}
    {statement : Statement} (stood : skeleton.statements[s]? = some statement) :
    (skeleton.push block site kind).1.statements[s]? = some statement := by
  rw [statements_push, Array.getElem?_push,
    if_neg (Nat.ne_of_lt (Array.getElem?_eq_some_iff.1 stood).1)]
  exact stood

/-- A statement after one was added is an old one, or the new one. -/
theorem statement_of_push {skeleton : Skeleton} {block site s : Nat} {kind : StatementKind}
    {statement : Statement}
    (found : (skeleton.push block site kind).1.statements[s]? = some statement) :
    skeleton.statements[s]? = some statement ∨ s = skeleton.statements.size ∧ statement =
      { site, kind, block := skeleton.blockIn block
        index := (skeleton.statementsOf (skeleton.blockIn block)).size } := by
  rw [statements_push, Array.getElem?_push] at found
  split at found
  · next new => exact .inr ⟨new, (Option.some.inj found).symm⟩
  · exact .inl found

/-- A statement to which an arm is added stays what it is. -/
theorem kept_addArm (skeleton : Skeleton) (statement : Nat) (role : Role) {s : Nat}
    {before : Statement} (stood : skeleton.statements[s]? = some before) :
    ∃ after, (skeleton.addArm statement role).1.statements[s]? = some after ∧
      after.kind = before.kind ∧ after.site = before.site := by
  rw [statements_addArm, Array.getElem?_modify, stood]
  split
  · exact ⟨_, rfl, rfl, rfl⟩
  · exact ⟨before, rfl, rfl, rfl⟩

/-- What a statement was before an arm was added. -/
theorem statement_of_addArm {skeleton : Skeleton} {statement s : Nat} {role : Role} {after : Statement}
    (found : (skeleton.addArm statement role).1.statements[s]? = some after) :
    ∃ before, skeleton.statements[s]? = some before ∧ after =
      { before with arms := before.arms ++ if statement = s then #[skeleton.blocks.size] else #[] } := by
  rw [statements_addArm, Array.getElem?_modify] at found
  split at found
  · next same =>
    obtain ⟨before, held, rfl⟩ := Option.map_eq_some_iff.1 found
    exact ⟨before, held, by rw [if_pos same, Array.push_eq_append]⟩
  · next other => exact ⟨after, found, by rw [if_neg other, Array.append_empty]⟩

/-- Nothing owns a block that is not there. -/
theorem ownerOf?_lt {skeleton : Skeleton} {block : Nat} {owner : Nat × Role}
    (owned : skeleton.ownerOf? block = some owner) : block < skeleton.blocks.size := by
  obtain ⟨here, found, -⟩ := Option.bind_eq_some_iff.1 owned
  exact (Array.getElem?_eq_some_iff.1 found).1

/-- The owner of a block is a statement of an older block. -/
theorem owner_stands {skeleton : Skeleton} {block s : Nat} {role : Role}
    (owned : skeleton.ownerOf? block = some (s, role)) :
    ∃ statement, skeleton.statements[s]? = some statement ∧ statement.block < block := by
  obtain ⟨here, found, owner⟩ := Option.bind_eq_some_iff.1 owned
  exact skeleton.block_lt block here s role found owner

/-! ## Adding keeps the layout -/

theorem laid_empty : Laid empty where
  stands := by intro s statement found; simp [empty] at found
  knows := by
    intro block index s found
    cases block <;> simp [statementsOf, empty] at found
  owns := by intro s statement arm found; simp [empty] at found
  root_free := rfl
  arms_sorted := by intro s statement found; simp [empty] at found

theorem Laid.push {skeleton : Skeleton} (laid : skeleton.Laid) (block site : Nat)
    (kind : StatementKind) : (skeleton.push block site kind).1.Laid where
  stands := by
    intro s statement found
    rw [statementsOf_push]
    rcases statement_of_push found with old | ⟨rfl, rfl⟩
    · have held := laid.stands s statement old
      split
      · rw [Array.getElem?_push, if_neg (Nat.ne_of_lt (Array.getElem?_eq_some_iff.1 held).1)]
        exact held
      · exact held
    · rw [if_pos rfl, Array.getElem?_push_size]
  knows := by
    intro other index s found
    have old : (skeleton.statementsOf other)[index]? = some s → ∃ statement,
        (skeleton.push block site kind).1.statements[s]? = some statement ∧
          statement.block = other ∧ statement.index = index := by
      intro held
      obtain ⟨statement, stood, place⟩ := laid.knows other index s held
      exact ⟨statement, kept_push skeleton block site kind stood, place⟩
    rw [statementsOf_push] at found
    split at found
    · next same =>
      rw [Array.getElem?_push] at found
      split at found
      · next last =>
        obtain rfl := Option.some.inj found
        exact ⟨_, Array.getElem?_push_size, same, by rw [same, last]⟩
      · exact old found
    · exact old found
  owns := by
    intro s statement arm found
    simp only [ownerOf?_push]
    rcases statement_of_push found with old | ⟨rfl, rfl⟩
    · exact laid.owns s statement arm old
    · refine ⟨fun inside => by simp at inside, fun ⟨role, owned⟩ => ?_⟩
      obtain ⟨owner, stood, -⟩ := owner_stands owned
      exact absurd (Array.getElem?_eq_some_iff.1 stood).1 (Nat.lt_irrefl _)
  root_free := by rw [ownerOf?_push]; exact laid.root_free
  arms_sorted := by
    intro s statement found
    rcases statement_of_push found with old | ⟨rfl, rfl⟩
    · exact laid.arms_sorted s statement old
    · exact List.Pairwise.nil

namespace Laid

variable {skeleton : Skeleton}

/-- An arm of a statement is owned by it. -/
theorem owned (laid : skeleton.Laid) {s arm : Nat} {statement : Statement}
    (stood : skeleton.statements[s]? = some statement) (inside : arm ∈ statement.arms.toList) :
    ∃ role, skeleton.ownerOf? arm = some (s, role) :=
  (laid.owns s statement arm stood).1 inside

/-- An arm is younger than the block in which its statement stands. -/
theorem arm_gt (laid : skeleton.Laid) {s arm : Nat} {statement : Statement}
    (stood : skeleton.statements[s]? = some statement) (inside : arm ∈ statement.arms.toList) :
    statement.block < arm ∧ arm < skeleton.blocks.size := by
  obtain ⟨role, owner⟩ := laid.owned stood inside
  obtain ⟨other, held, less⟩ := owner_stands owner
  obtain rfl : statement = other := Option.some.inj (stood.symm.trans held)
  exact ⟨less, ownerOf?_lt owner⟩

/-- Every statement is an old one. Only the owner of the new arm has changed, in its arms. -/
theorem addArm (laid : skeleton.Laid) {statement : Nat} (there : statement < skeleton.statements.size)
    (role : Role) : (skeleton.addArm statement role).1.Laid where
  stands := by
    intro s after found
    obtain ⟨before, held, rfl⟩ := statement_of_addArm found
    rw [statementsOf_addArm]
    exact laid.stands s before held
  knows := by
    intro other index s found
    rw [statementsOf_addArm] at found
    obtain ⟨before, held, block, place⟩ := laid.knows other index s found
    rw [statements_addArm, Array.getElem?_modify, held]
    split
    · exact ⟨_, rfl, block, place⟩
    · exact ⟨before, rfl, block, place⟩
  owns := by
    intro s after arm found
    obtain ⟨before, held, rfl⟩ := statement_of_addArm found
    simp only [ownerOf?_addArm skeleton there]
    rw [Array.toList_append, List.mem_append, laid.owns s before arm held]
    constructor
    · rintro (⟨role, owned⟩ | new)
      · exact ⟨role, by rw [if_neg (Nat.ne_of_lt (ownerOf?_lt owned))]; exact owned⟩
      · split at new
        · next same =>
          subst same
          exact ⟨role, by rw [if_pos (List.mem_singleton.1 new)]⟩
        · cases new
    · rintro ⟨role, owned⟩
      split at owned
      · next new =>
        obtain ⟨rfl, -⟩ := Prod.mk.inj (Option.some.inj owned)
        exact .inr (by simp [new])
      · exact .inl ⟨role, owned⟩
  root_free := by
    have different : root ≠ skeleton.blocks.size := Nat.ne_of_lt skeleton.root_lt
    rw [ownerOf?_addArm skeleton there, if_neg different]
    exact laid.root_free
  arms_sorted := by
    intro s after found
    obtain ⟨before, held, rfl⟩ := statement_of_addArm found
    rw [Array.toList_append, List.pairwise_append]
    refine ⟨laid.arms_sorted s before held, by split <;> simp, ?_⟩
    intro arm inside new later
    split at later
    · obtain rfl := List.mem_singleton.1 later
      exact (laid.arm_gt held inside).2
    · cases later

end Laid

/-! ## Around a block -/

/-- `skeleton.Around block owner role`: the block lies inside the arm of `owner` that plays `role`.

* `arm`: it is the arm.
* `further`: it is an arm of a statement that lies inside that arm. -/
inductive Around (skeleton : Skeleton) : Nat → Statement → Role → Prop
  | arm {block s : Nat} {role : Role} {owner : Statement} :
      skeleton.ownerOf? block = some (s, role) → skeleton.statements[s]? = some owner →
      Around skeleton block owner role
  | further {block s : Nat} {nearer role : Role} {inner owner : Statement} :
      skeleton.ownerOf? block = some (s, nearer) → skeleton.statements[s]? = some inner →
      Around skeleton inner.block owner role → Around skeleton block owner role

/-! ## Arms that fit -/

end Skeleton

/-- Whether a block in a role can be an arm of a statement of a kind. -/
def StatementKind.allows : StatementKind → Role → Bool
  | .conditional, .whenTrue => true
  | .conditional, .whenFalse => true
  | .loop, .loopBody => true
  | .switch, .case _ => true
  | .guarded, .guardedBody => true
  | .guarded, .handler => true
  | .guarded, .cleanup => true
  | _, _ => false

/-- The kind of statement that has arms in a role. -/
def Role.kind : Role → StatementKind
  | whenTrue => .conditional
  | whenFalse => .conditional
  | loopBody => .loop
  | guardedBody => .guarded
  | handler => .guarded
  | cleanup => .guarded
  | case _ => .switch

theorem Role.allows_iff {kind : StatementKind} {role : Role} :
    kind.allows role = true ↔ kind = role.kind := by
  cases kind <;> cases role <;> simp [StatementKind.allows, Role.kind]

namespace Skeleton

/-- The roles of the arms of a statement, in order. -/
def rolesOf (skeleton : Skeleton) (statement : Statement) : List Role :=
  statement.arms.toList.filterMap skeleton.role?

/-- Every arm fits the statement that owns it: a conditional has at most one arm for each side, a
loop at most one body, a guarded statement at most one body, handler and cleanup each, a switch has
cases, and nothing else has arms. -/
def ArmsFit (skeleton : Skeleton) : Prop :=
  ∀ statement ∈ skeleton.statements.toList, ∀ role ∈ skeleton.rolesOf statement,
    statement.kind.allows role = true ∧
      (statement.kind ≠ .switch → (skeleton.rolesOf statement).count role = 1)

/-- An arm that fits tells the kind of its statement. -/
theorem ArmsFit.kind_eq {skeleton : Skeleton} (fit : skeleton.ArmsFit) (laid : skeleton.Laid)
    {s arm : Nat} {role : Role} {statement : Statement}
    (owned : skeleton.ownerOf? arm = some (s, role))
    (stood : skeleton.statements[s]? = some statement) : statement.kind = role.kind := by
  refine Role.allows_iff.1
    (fit statement (Array.mem_toList_iff.2 (Array.mem_of_getElem? stood)) role ?_).1
  refine List.mem_filterMap.2 ⟨arm, (laid.owns s statement arm stood).2 ⟨role, owned⟩, ?_⟩
  rw [role?_eq, owned]
  rfl

end Skeleton

namespace Region

/-- `Built region`: the region was made for some owner and parameters, and filled by adding
statements to blocks, arms to statements, and accesses to statements or to the entry. What a
statement, an arm or an access is added to has to be there. -/
inductive Built : Region → Prop
  | start (owner : Option Nat) (params : Array Nat) : Built { owner, params }
  | push {region : Region} (block site : Nat) (kind : StatementKind) :
      Built region → block < region.skeleton.blocks.size → Built (region.push block site kind).1
  | addArm {region : Region} (statement : Nat) (role : Role) :
      Built region → statement < region.skeleton.statements.size →
      Built (region.addArm statement role).1
  | record {region : Region} (statement : Option Nat) (access : Access) :
      Built region → (∀ number, statement = some number → number < region.skeleton.statements.size) →
      Built (region.record statement access)

@[simp] theorem skeleton_push (region : Region) (block site : Nat) (kind : StatementKind) :
    (region.push block site kind).1.skeleton = (region.skeleton.push block site kind).1 :=
  rfl

@[simp] theorem skeleton_addArm (region : Region) (statement : Nat) (role : Role) :
    (region.addArm statement role).1.skeleton = (region.skeleton.addArm statement role).1 :=
  rfl

theorem skeleton_record (region : Region) (statement : Option Nat) (access : Access) :
    (region.record statement access).skeleton = region.skeleton := by
  cases statement <;> rfl

theorem Built.laid {region : Region} (built : region.Built) : region.skeleton.Laid := by
  induction built with
  | start owner params => exact Skeleton.laid_empty
  | push block site kind _ _ ih => exact ih.push block site kind
  | addArm statement role _ there ih => exact ih.addArm there role
  | record statement access _ _ ih =>
    rw [skeleton_record]
    exact ih

/-- Of the blocks of a region only the root is owned by nothing. -/
theorem Built.owned {region : Region} (built : region.Built) {block : Nat}
    (there : block < region.skeleton.blocks.size) (inner : block ≠ Skeleton.root) :
    ∃ owner, region.skeleton.ownerOf? block = some owner := by
  induction built with
  | start owner params => exact absurd (Nat.lt_one_iff.1 there) inner
  | @push region around site kind _ _ ih =>
    have size : (region.push around site kind).1.skeleton.blocks.size =
        region.skeleton.blocks.size := Array.size_modify
    obtain ⟨owner, owned⟩ := ih (size ▸ there)
    exact ⟨owner, (Skeleton.ownerOf?_push _ around site kind block).trans owned⟩
  | @addArm region statement role _ stands ih =>
    have now := Skeleton.ownerOf?_addArm region.skeleton stands role block
    by_cases new : block = region.skeleton.blocks.size
    · exact ⟨_, now.trans (if_pos new)⟩
    · have size : (region.addArm statement role).1.skeleton.blocks.size =
          region.skeleton.blocks.size + 1 := Array.size_push _
      obtain ⟨owner, owned⟩ := ih (by omega)
      exact ⟨owner, (now.trans (if_neg new)).trans owned⟩
  | record statement access _ _ ih =>
    rw [skeleton_record] at there ⊢
    exact ih there

end Region

end CodeGraph

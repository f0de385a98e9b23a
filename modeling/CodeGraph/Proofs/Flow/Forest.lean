import CodeGraph.Proofs.Flow.Layout
import Mathlib.Data.List.Nodup

/-!
# Statements as a forest

The statements of a region make a forest (`Skeleton.Forest`): a statement stands at one place, and a block
other than the root is an arm of one statement, which is older than all statements in that block. This holds
however a region is filled (`Region.Built.forest`), but for the roles of the arms. Which arms a statement
can have depends on its kind (`StatementKind.Takes`), and this is up to those who add the arms.
-/

namespace CodeGraph

/-- `kind.Takes roles`: the arms of a statement of a kind can play these roles, in this order. -/
def StatementKind.Takes : StatementKind → List Role → Prop
  | .conditional, roles => roles.Sublist [.whenTrue, .whenFalse]
  | .loop, roles => roles.Sublist [.loopBody]
  | .switch, roles => ∀ role ∈ roles, ∃ isDefault, role = .case isDefault
  | .guarded, roles => roles.Sublist [.guardedBody, .handler, .cleanup]
  | _, roles => roles = []

theorem StatementKind.takes_nil (kind : StatementKind) : kind.Takes [] := by
  cases kind with
  | conditional => exact List.nil_sublist _
  | loop => exact List.nil_sublist _
  | guarded => exact List.nil_sublist _
  | switch => exact fun _ none => nomatch none
  | _ => exact rfl

/-- A statement can do without some of its arms. -/
theorem StatementKind.Takes.sublist {kind : StatementKind} {roles among : List Role}
    (takes : kind.Takes among) (part : roles.Sublist among) : kind.Takes roles := by
  cases kind with
  | conditional => exact part.trans takes
  | loop => exact part.trans takes
  | guarded => exact part.trans takes
  | switch => exact fun role inside => takes role (part.subset inside)
  | _ => exact List.sublist_nil.1 (takes ▸ part)

/-- Roles that a statement takes are those of its kind, and only cases are played more than once. -/
theorem StatementKind.Takes.allows {kind : StatementKind} {roles : List Role} (takes : kind.Takes roles) :
    ∀ role ∈ roles, kind.allows role = true ∧ (kind ≠ .switch → roles.count role = 1) := by
  intro role inside
  have once : ∀ {all : List Role}, roles.Sublist all → all.Nodup → roles.count role = 1 :=
    fun sublist nodup => List.count_eq_one_of_mem (nodup.sublist sublist) inside
  cases kind with
  | conditional =>
    have fits := takes.subset inside
    simp only [List.mem_cons, List.not_mem_nil, or_false] at fits
    exact ⟨by rcases fits with rfl | rfl <;> rfl, fun _ => once takes (by decide)⟩
  | loop =>
    obtain rfl := List.mem_singleton.1 (takes.subset inside)
    exact ⟨rfl, fun _ => once takes (by decide)⟩
  | guarded =>
    have fits := takes.subset inside
    simp only [List.mem_cons, List.not_mem_nil, or_false] at fits
    exact ⟨by rcases fits with rfl | rfl | rfl <;> rfl, fun _ => once takes (by decide)⟩
  | switch =>
    obtain ⟨isDefault, rfl⟩ := takes role inside
    exact ⟨rfl, fun other => absurd rfl other⟩
  | _ => exact absurd inside (takes ▸ List.not_mem_nil)

namespace Skeleton

variable {skeleton : Skeleton}

/-- The statements of a skeleton make a forest.

* `stands`, `listed`: each statement stands in its block at its index, and nowhere else; nothing else stands
  in blocks.
* `ascending`: the statements of a block are listed from the oldest to the youngest.
* `root_free`, `owned`: the root is no arm; every other block is an arm of one statement, and that only
  once, and the statement is older than those in the block.
* `arms`, `takes`: arms are blocks, and play roles that the kind of the statement takes. -/
structure Forest (skeleton : Skeleton) : Prop where
  stands : ∀ (s : Nat) (statement : Statement), skeleton.statements[s]? = some statement →
    ∀ block index, (skeleton.statementsOf block)[index]? = some s ↔
      block = statement.block ∧ index = statement.index
  listed : ∀ block, ∀ s ∈ (skeleton.statementsOf block).toList, s < skeleton.statements.size
  ascending : ∀ block, (skeleton.statementsOf block).toList.Pairwise (· < ·)
  root_free : ∀ statement ∈ skeleton.statements.toList, root ∉ statement.arms.toList
  owned : ∀ block < skeleton.blocks.size, block ≠ root →
    ∃ (s : Nat) (statement : Statement), skeleton.statements[s]? = some statement ∧
      statement.arms.toList.count block = 1 ∧
      (∀ (other : Nat) (another : Statement), skeleton.statements[other]? = some another →
        block ∈ another.arms.toList → other = s) ∧
      ∀ inner ∈ (skeleton.statementsOf block).toList, s < inner
  arms : ∀ statement ∈ skeleton.statements.toList, ∀ arm ∈ statement.arms.toList,
    arm < skeleton.blocks.size
  takes : ∀ statement ∈ skeleton.statements.toList, ∃ roles,
    statement.arms.toList.map skeleton.role? = roles.map some ∧ statement.kind.Takes roles

/-- In a forest of statements all arms fit. -/
theorem Forest.armsFit (forest : skeleton.Forest) : skeleton.ArmsFit := by
  intro statement inside
  obtain ⟨roles, plays, takes⟩ := forest.takes statement inside
  have same : skeleton.rolesOf statement = roles := by
    have known := congrArg (List.filterMap id) plays
    rw [List.filterMap_map, List.filterMap_map] at known
    exact known.trans List.filterMap_some
  exact same ▸ takes.allows

/-- Statements are younger than those before them in their block, and than the owner of the block. -/
structure Ascending (skeleton : Skeleton) : Prop where
  sorted : ∀ block, (skeleton.statementsOf block).toList.Pairwise (· < ·)
  younger : ∀ (block s : Nat) (role : Role), skeleton.ownerOf? block = some (s, role) →
    ∀ inner ∈ (skeleton.statementsOf block).toList, s < inner

theorem Laid.lt_of_mem (laid : skeleton.Laid) {block s : Nat}
    (inside : s ∈ (skeleton.statementsOf block).toList) : s < skeleton.statements.size := by
  obtain ⟨index, held⟩ := Array.mem_iff_getElem?.1 (Array.mem_toList_iff.1 inside)
  obtain ⟨statement, stood, -⟩ := laid.knows block index s held
  exact (Array.getElem?_eq_some_iff.1 stood).1

theorem ascending_empty : Ascending empty := by
  have nothing : ∀ block, (empty.statementsOf block).toList = [] := fun block => by
    cases block <;> rfl
  refine ⟨fun block => ?_, fun block s role _ inner inside => ?_⟩
  · rw [nothing]
    exact List.Pairwise.nil
  · rw [nothing] at inside
    cases inside

theorem Ascending.push (ascending : skeleton.Ascending) (laid : skeleton.Laid) (block site : Nat)
    (kind : StatementKind) : (skeleton.push block site kind).1.Ascending where
  sorted := by
    intro other
    rw [statementsOf_push]
    split
    · rw [Array.toList_push]
      refine List.pairwise_append.2 ⟨ascending.sorted other, List.pairwise_singleton _ _, ?_⟩
      intro inner inside last only
      obtain rfl := List.mem_singleton.1 only
      exact laid.lt_of_mem inside
    · exact ascending.sorted other
  younger := by
    intro other s role owned inner inside
    rw [ownerOf?_push] at owned
    rw [statementsOf_push] at inside
    split at inside
    · rw [Array.toList_push, List.mem_append, List.mem_singleton] at inside
      rcases inside with old | rfl
      · exact ascending.younger other s role owned inner old
      · obtain ⟨owner, stood, -⟩ := owner_stands owned
        exact (Array.getElem?_eq_some_iff.1 stood).1
    · exact ascending.younger other s role owned inner inside

theorem Ascending.addArm (ascending : skeleton.Ascending) {statement : Nat}
    (there : statement < skeleton.statements.size) (role : Role) :
    (skeleton.addArm statement role).1.Ascending where
  sorted := by
    intro other
    rw [statementsOf_addArm]
    exact ascending.sorted other
  younger := by
    intro other s role owned inner inside
    rw [statementsOf_addArm] at inside
    rw [ownerOf?_addArm skeleton there] at owned
    split at owned
    · next new =>
      -- there is nothing yet in the block that is added
      rw [statementsOf, Array.getElem?_eq_none (Nat.le_of_eq new.symm)] at inside
      cases inside
    · exact ascending.younger other s role owned inner inside

/-! ## The roles of the arms -/

theorem rolesOf_push (skeleton : Skeleton) (block site : Nat) (kind : StatementKind)
    (statement : Statement) :
    (skeleton.push block site kind).1.rolesOf statement = skeleton.rolesOf statement := by
  have same : (skeleton.push block site kind).1.role? = skeleton.role? :=
    funext fun arm => by rw [role?_eq, role?_eq, ownerOf?_push]
  rw [rolesOf, rolesOf, same]

/-- An arm that is added plays its role after those that are there. -/
theorem Laid.rolesOf_addArm (laid : skeleton.Laid) {statement : Nat}
    (there : statement < skeleton.statements.size) (role : Role) {s : Nat} {before : Statement}
    (held : skeleton.statements[s]? = some before) :
    (skeleton.addArm statement role).1.rolesOf
        { before with arms := before.arms ++ if statement = s then #[skeleton.blocks.size] else #[] } =
      skeleton.rolesOf before ++ if statement = s then [role] else [] := by
  have old : ∀ arm ∈ before.arms.toList,
      (skeleton.addArm statement role).1.role? arm = skeleton.role? arm := by
    intro arm inside
    rw [role?_eq, role?_eq, ownerOf?_addArm skeleton there,
      if_neg (Nat.ne_of_lt (laid.arm_gt held inside).2)]
  have new : (skeleton.addArm statement role).1.role? skeleton.blocks.size = some role := by
    rw [role?_eq, ownerOf?_addArm skeleton there, if_pos rfl]
    rfl
  rw [rolesOf, rolesOf, Array.toList_append, List.filterMap_append, List.filterMap_congr old]
  split
  · rw [List.filterMap_cons_some new, List.filterMap_nil]
  · rfl

/-- Every arm of a statement plays a role. -/
theorem Laid.map_role? (laid : skeleton.Laid) {s : Nat} {statement : Statement}
    (stood : skeleton.statements[s]? = some statement) :
    statement.arms.toList.map skeleton.role? = (skeleton.rolesOf statement).map some := by
  have plays : ∀ arm ∈ statement.arms.toList, (skeleton.role? arm).isSome := by
    intro arm inside
    obtain ⟨role, owned⟩ := laid.owned stood inside
    rw [role?_eq, owned]
    rfl
  rw [rolesOf, List.map_filterMap_some_eq_filter_map_isSome,
    List.filter_eq_self.2 fun role there => ?_]
  obtain ⟨arm, inside, rfl⟩ := List.mem_map.1 there
  exact plays arm inside

end Skeleton

namespace Region

theorem Built.ascending {region : Region} (built : region.Built) : region.skeleton.Ascending := by
  induction built with
  | start owner params => exact Skeleton.ascending_empty
  | push block site kind before _ ih => exact ih.push before.laid block site kind
  | addArm statement role _ there ih => exact ih.addArm there role
  | record statement access _ _ ih =>
    rw [skeleton_record]
    exact ih

/-- The statements of a region make a forest if their arms play roles that their kinds take. -/
theorem Built.forest {region : Region} (built : region.Built)
    (takes : ∀ (s : Nat) (statement : Statement), region.skeleton.statements[s]? = some statement →
      statement.kind.Takes (region.skeleton.rolesOf statement)) : region.skeleton.Forest := by
  have laid := built.laid
  have held : ∀ {statement : Statement}, statement ∈ region.skeleton.statements.toList →
      ∃ s : Nat, region.skeleton.statements[s]? = some statement :=
    fun inside => Array.mem_iff_getElem?.1 (Array.mem_toList_iff.1 inside)
  refine ⟨?stands, ?listed, built.ascending.sorted, ?root_free, ?owned, ?arms, ?takes⟩
  case stands =>
    intro s statement stood block index
    constructor
    · intro found
      obtain ⟨other, stood', rfl, rfl⟩ := laid.knows block index s found
      obtain rfl := Option.some.inj (stood.symm.trans stood')
      exact ⟨rfl, rfl⟩
    · rintro ⟨rfl, rfl⟩
      exact laid.stands s statement stood
  case listed => exact fun block s inside => laid.lt_of_mem inside
  case root_free =>
    intro statement inside arm
    obtain ⟨s, stood⟩ := held inside
    obtain ⟨role, owned⟩ := laid.owned stood arm
    cases laid.root_free.symm.trans owned
  case owned =>
    intro block there inner
    obtain ⟨⟨s, role⟩, owned⟩ := built.owned there inner
    obtain ⟨statement, stood, -⟩ := Skeleton.owner_stands owned
    refine ⟨s, statement, stood, ?_, fun other another stood' inside => ?_,
      built.ascending.younger block s role owned⟩
    · exact List.count_eq_one_of_mem
        ((laid.arms_sorted s statement stood).imp Nat.ne_of_lt)
        ((laid.owns s statement block stood).2 ⟨role, owned⟩)
    · obtain ⟨role', owned'⟩ := laid.owned stood' inside
      exact (Prod.mk.inj (Option.some.inj (owned'.symm.trans owned))).1
  case arms =>
    intro statement inside arm there
    obtain ⟨s, stood⟩ := held inside
    exact (laid.arm_gt stood there).2
  case takes =>
    intro statement inside
    obtain ⟨s, stood⟩ := held inside
    exact ⟨_, laid.map_role? stood, takes s statement stood⟩

end Region

end CodeGraph

import CodeGraph.Proofs.Facts.Makes
import CodeGraph.Proofs.Flow.DataFlow

/-!
# What the walk leaves alone

A walk that began in a context leaves the old regions alone, but for the one in which it began. There
it changes neither the old statements nor the owners of the old blocks, and of the accesses of old
statements only those of the statement at which it began (`Region.Spares`). Where it may not add
statements, the whole skeleton stays.
-/

namespace CodeGraph

namespace Region

/-- A new statement has no accesses yet. -/
theorem accessesOf_push (region : Region) (block site : Nat) (kind : StatementKind) (number : Nat) :
    (region.push block site kind).1.accessesOf number = region.accessesOf number := by
  simp only [push, accessesOf, Array.getElem?_push]
  split
  · next last =>
    rw [last, Array.getElem?_eq_none (Nat.le_refl _)]
    rfl
  · rfl

/-- An access is recorded for one statement only. -/
theorem accessesOf_record_other (region : Region) {statement : Option Nat} (access : Access)
    {number : Nat} (other : statement ≠ some number) :
    (region.record statement access).accessesOf number = region.accessesOf number := by
  cases statement with
  | none => rfl
  | some recorded =>
    simp only [record, accessesOf, Array.getElem?_modify]
    rw [if_neg fun same => other (congrArg some same)]

/-- An access is recorded behind the others of its statement. -/
theorem accessesOf_record_self (region : Region) {number : Nat} (access : Access)
    (there : number < region.accesses.size) :
    (region.record (some number) access).accessesOf number =
      region.accessesOf number ++ [access] := by
  simp only [record, accessesOf, Array.getElem?_modify, if_pos, Array.getElem?_eq_getElem there]
  simp

/-- `Spares statement adds before after`: what a walk that began at `statement` leaves alone in the
region in which it began. -/
structure Spares (statement : Option Nat) (adds : Bool) (before after : Region) : Prop where
  statements_le : before.skeleton.statements.size ≤ after.skeleton.statements.size
  blocks_le : before.skeleton.blocks.size ≤ after.skeleton.blocks.size
  statements : ∀ number, number < before.skeleton.statements.size →
    after.skeleton.statements[number]? = before.skeleton.statements[number]?
  accesses : ∀ number, number < before.skeleton.statements.size → statement ≠ some number →
    after.accessesOf number = before.accessesOf number
  owners : ∀ block, block < before.skeleton.blocks.size →
    after.skeleton.ownerOf? block = before.skeleton.ownerOf? block
  skeleton : adds = false → after.skeleton = before.skeleton

namespace Spares

variable {statement : Option Nat} {adds : Bool} {before after : Region}

theorem refl (region : Region) : region.Spares statement adds region :=
  ⟨Nat.le_refl _, Nat.le_refl _, fun _ _ => rfl, fun _ _ _ => rfl, fun _ _ => rfl, fun _ => rfl⟩

theorem record (spares : before.Spares statement adds after) {recorded : Option Nat}
    (access : Access)
    (new : ∀ number, recorded = some number →
      statement = some number ∨ before.skeleton.statements.size ≤ number) :
    before.Spares statement adds (after.record recorded access) := by
  have same := skeleton_record after recorded access
  refine ⟨same ▸ spares.statements_le, same ▸ spares.blocks_le, same ▸ spares.statements, ?_,
    same ▸ spares.owners, same ▸ spares.skeleton⟩
  intro number old other
  rw [accessesOf_record_other]
  · exact spares.accesses number old other
  · intro here
    rcases new number here with begun | late
    · exact other begun
    · omega

theorem push (spares : before.Spares statement adds after) (block site : Nat)
    (kind : StatementKind) (may : adds = true) :
    before.Spares statement adds (after.push block site kind).1 where
  statements_le := by
    have := spares.statements_le
    rw [Region.skeleton_push, Skeleton.size_statements_push]
    omega
  blocks_le := by
    rw [Region.skeleton_push, Skeleton.size_blocks_push]
    exact spares.blocks_le
  statements := by
    intro number old
    rw [← spares.statements number old]
    have less := Nat.lt_of_lt_of_le old spares.statements_le
    rw [Region.skeleton_push, Skeleton.statements_push, Array.getElem?_push, if_neg (Nat.ne_of_lt less)]
  accesses := by
    intro number old other
    rw [accessesOf_push]
    exact spares.accesses number old other
  owners := by
    intro other old
    rw [← spares.owners other old]
    exact Skeleton.ownerOf?_push _ _ _ _ _
  skeleton := by
    intro no
    rw [may] at no
    cases no

theorem addArm (spares : before.Spares statement adds after) {number : Nat} (role : Role)
    (may : adds = true) (new : before.skeleton.statements.size ≤ number)
    (there : number < after.skeleton.statements.size) :
    before.Spares statement adds (after.addArm number role).1 where
  statements_le := by
    rw [Region.skeleton_addArm, Skeleton.size_statements_addArm]
    exact spares.statements_le
  blocks_le := by
    have := spares.blocks_le
    rw [Region.skeleton_addArm, Skeleton.size_blocks_addArm]
    omega
  statements := by
    intro other old
    rw [← spares.statements other old]
    rw [Region.skeleton_addArm, Skeleton.statements_addArm, Array.getElem?_modify, if_neg (by omega)]
  accesses := spares.accesses
  owners := by
    intro block old
    rw [← spares.owners block old]
    have less := Nat.lt_of_lt_of_le old spares.blocks_le
    refine (Skeleton.ownerOf?_addArm _ there role block).trans ?_
    rw [if_neg (Nat.ne_of_lt less)]
  skeleton := by
    intro no
    rw [may] at no
    cases no

theorem trans {first second third : Region} (one : first.Spares statement adds second)
    (two : second.Spares statement adds third) : first.Spares statement adds third where
  statements_le := Nat.le_trans one.statements_le two.statements_le
  blocks_le := Nat.le_trans one.blocks_le two.blocks_le
  statements := fun number old => (two.statements number
    (Nat.lt_of_lt_of_le old one.statements_le)).trans (one.statements number old)
  accesses := fun number old other => (two.accesses number
    (Nat.lt_of_lt_of_le old one.statements_le) other).trans (one.accesses number old other)
  owners := fun block old => (two.owners block
    (Nat.lt_of_lt_of_le old one.blocks_le)).trans (one.owners block old)
  skeleton := fun no => (two.skeleton no).trans (one.skeleton no)

end Spares

/-- `KeepsAt number before after`: the statements and the owners of blocks stay, and so do the accesses
of the statement `number`. -/
structure KeepsAt (number : Nat) (before after : Region) : Prop where
  statements_le : before.skeleton.statements.size ≤ after.skeleton.statements.size
  blocks_le : before.skeleton.blocks.size ≤ after.skeleton.blocks.size
  statements : ∀ other, other < before.skeleton.statements.size →
    after.skeleton.statements[other]? = before.skeleton.statements[other]?
  accesses : number < before.skeleton.statements.size →
    after.accessesOf number = before.accessesOf number
  owners : ∀ block, block < before.skeleton.blocks.size →
    after.skeleton.ownerOf? block = before.skeleton.ownerOf? block

namespace KeepsAt

variable {number : Nat}

theorem refl (region : Region) : region.KeepsAt number region :=
  ⟨Nat.le_refl _, Nat.le_refl _, fun _ _ => rfl, fun _ => rfl, fun _ _ => rfl⟩

theorem trans {first second third : Region} (one : first.KeepsAt number second)
    (two : second.KeepsAt number third) : first.KeepsAt number third where
  statements_le := Nat.le_trans one.statements_le two.statements_le
  blocks_le := Nat.le_trans one.blocks_le two.blocks_le
  statements := fun other old => (two.statements other
    (Nat.lt_of_lt_of_le old one.statements_le)).trans (one.statements other old)
  accesses := fun old => (two.accesses (Nat.lt_of_lt_of_le old one.statements_le)).trans
    (one.accesses old)
  owners := fun block old => (two.owners block
    (Nat.lt_of_lt_of_le old one.blocks_le)).trans (one.owners block old)

/-- A walk that began at another statement keeps the accesses of this one. -/
theorem of_spares {statement : Option Nat} {adds : Bool} {before after : Region}
    (spares : before.Spares statement adds after) (other : statement ≠ some number) :
    before.KeepsAt number after :=
  ⟨spares.statements_le, spares.blocks_le, spares.statements,
    fun old => spares.accesses number old other, spares.owners⟩

end KeepsAt

end Region

namespace Facts

/-! ## The regions after each operation -/

section Operations

variable (facts : Facts) (context : Context)

theorem getElem?_record (access : Access) (number : Nat) :
    (facts.record context access).regions[number]? =
      if context.region = number then
        facts.regions[number]?.map fun region => region.record context.statement access
      else facts.regions[number]? :=
  Array.getElem?_modify

theorem getElem?_pushStatement (site : Nat) (kind : StatementKind) (number : Nat) :
    (facts.pushStatement context site kind).1.regions[number]? =
      if context.region = number then
        facts.regions[number]?.map fun region => (region.push context.block site kind).1
      else facts.regions[number]? := by
  rw [pushStatement_eq]
  exact Array.getElem?_modify

theorem getElem?_pushArm (statement : Nat) (role : Role) (number : Nat) :
    (facts.pushArm context statement role).1.regions[number]? =
      if context.region = number then
        facts.regions[number]?.map fun region => (region.addArm statement role).1
      else facts.regions[number]? := by
  rw [pushArm_eq]
  exact Array.getElem?_modify

/-- Old regions are where they were when a function has been entered. -/
theorem getElem?_enterFunction (file : SourceFile) (cursor : Cursor) (hint : Option Hint)
    (isMethod : Bool) {number : Nat} (old : number < facts.regions.size) :
    (facts.enterFunction file cursor context hint isMethod).facts.regions[number]? =
      facts.regions[number]? := by
  rw [regions_enterFunction, Array.getElem?_push, if_neg (Nat.ne_of_lt old)]

end Operations

variable {file : SourceFile} {base facts : Facts} {outer : Context} {adds : Bool}

/-- A context within another one is in no old region but that of the other. -/
theorem other_of_within {context : Context} (within : outer.Within base context) {number : Nat}
    (old : number < base.regions.size) (other : number ≠ outer.region) :
    context.region ≠ number := by
  cases within with
  | elsewhere new => omega
  | here same _ => omega

/-- Other regions stay as they are. -/
theorem Makes.other_region (made : Makes file base outer adds facts) {number : Nat}
    (old : number < base.regions.size) (other : number ≠ outer.region) :
    facts.regions[number]? = base.regions[number]? := by
  induction made with
  | start => rfl
  | place node parent _ _ _ _ ih => exact ih
  | record context access _ within _ _ ih =>
    rw [getElem?_record, if_neg (other_of_within within old other)]
    exact ih
  | pushScope parent _ _ ih => exact ih
  | pushStatement context site kind _ within _ _ _ ih =>
    rw [getElem?_pushStatement, if_neg (other_of_within within old other)]
    exact ih
  | pushArm context statement role _ within _ _ _ ih =>
    rw [getElem?_pushArm, if_neg (other_of_within within old other)]
    exact ih
  | recordReturn function site _ _ ih => cases function <;> exact ih
  | declareVariable scope name node _ _ _ ih => exact ih
  | declareIn context node _ _ _ _ ih => exact ih
  | addParam context node _ within _ _ ih =>
    rw [Array.getElem?_modify, if_neg (other_of_within within old other)]
    exact ih
  | noteParam number position node _ _ _ ih => exact ih
  | enterFunction cursor context hint isMethod before _ _ ih =>
    rw [getElem?_enterFunction _ _ _ _ _ _ (Nat.lt_of_lt_of_le old before.extends.regions)]
    exact ih
  | pushClass name _ ih => exact ih
  | noteMethod number node _ _ _ ih => exact ih
  | enterCall cursor context _ _ _ _ _ ih => exact ih

/-- The region in which the walk began is spared but for what is new in it. -/
theorem Makes.own_region (made : Makes file base outer adds facts) {before : Region}
    (found : base.regions[outer.region]? = some before) :
    ∃ after, facts.regions[outer.region]? = some after ∧
      before.Spares outer.statement adds after := by
  have old := (Array.getElem?_eq_some_iff.1 found).1
  have size := statementsIn_of_found found
  induction made with
  | start => exact ⟨before, found, .refl before⟩
  | place node parent _ _ _ _ ih => exact ih
  | record context access _ within _ _ ih =>
    obtain ⟨after, held, spares⟩ := ih
    rw [getElem?_record, held]
    cases within with
    | elsewhere new => exact ⟨after, if_neg (by omega), spares⟩
    | here same at_ => exact ⟨_, if_pos same, spares.record access (size ▸ at_)⟩
  | pushScope parent _ _ ih => exact ih
  | pushStatement context site kind _ within _ may _ ih =>
    obtain ⟨after, held, spares⟩ := ih
    rw [getElem?_pushStatement, held]
    cases within with
    | elsewhere new => exact ⟨after, if_neg (by omega), spares⟩
    | here same at_ =>
      refine ⟨_, if_pos same, spares.push _ _ _ (may.resolve_left ?_)⟩
      omega
  | pushArm context statement role _ within _ there may ih =>
    obtain ⟨after, held, spares⟩ := ih
    rw [getElem?_pushArm, held]
    cases within with
    | elsewhere new => exact ⟨after, if_neg (by omega), spares⟩
    | here same at_ =>
      rw [same, statementsIn_of_found held] at there
      obtain ⟨yes, new⟩ := may.resolve_left (by omega)
      rw [same, size] at new
      exact ⟨_, if_pos same, spares.addArm role yes new there⟩
  | recordReturn function site _ _ ih => cases function <;> exact ih
  | declareVariable scope name node _ _ _ ih => exact ih
  | declareIn context node _ _ _ _ ih => exact ih
  | addParam context node _ within _ _ ih =>
    obtain ⟨after, held, spares⟩ := ih
    rw [Array.getElem?_modify, held]
    cases within with
    | elsewhere new => exact ⟨after, if_neg (by omega), spares⟩
    | here same at_ =>
      exact ⟨_, if_pos same, ⟨spares.statements_le, spares.blocks_le, spares.statements,
        spares.accesses, spares.owners, spares.skeleton⟩⟩
  | noteParam number position node _ _ _ ih => exact ih
  | enterFunction cursor context hint isMethod before _ _ ih =>
    rw [getElem?_enterFunction _ _ _ _ _ _ (Nat.lt_of_lt_of_le old before.extends.regions)]
    exact ih
  | pushClass name _ ih => exact ih
  | noteMethod number node _ _ _ ih => exact ih
  | enterCall cursor context _ _ _ _ _ ih => exact ih

end Facts

end CodeGraph

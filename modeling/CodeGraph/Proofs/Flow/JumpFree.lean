import CodeGraph.Proofs.Flow.Reaching
import CodeGraph.Proofs.Flow.Traces

/-!
# Bodies without jumps

If no statement jumps, all code can complete (`Skeleton.JumpFree.canComplete_codeOf`), so from every
statement a walk leads past it (`Skeleton.JumpFree.ends_past`), and from every place one leads out of the
body (`Skeleton.JumpFree.exists_ends`). The walks are made from runs of the code, which go downwards into
the arms; what follows a block is found outwards, from the block to the one that its owner stands in.
-/

namespace CodeGraph

open Continuation

namespace Code

/-- Some run of the code completes, wherever the code stands. -/
def CanComplete (code : Code) : Prop := ∀ last, ∃ trace, Runs last code trace .completes

/-- Statements that can complete can do so one after the other. -/
theorem exists_runsAll {codes : List Code} (each : ∀ code ∈ codes, code.CanComplete)
    (raising : Bool) : ∃ trace, RunsAll raising codes trace .completes := by
  induction codes with
  | nil => exact ⟨[], .nil⟩
  | cons head rest ih =>
    obtain ⟨front, run⟩ := each head List.mem_cons_self (raising && rest.isEmpty)
    obtain ⟨back, runs⟩ := ih fun code inside => each code (List.mem_cons_of_mem _ inside)
    exact ⟨front ++ back, .cons run runs⟩

end Code

/-- The kinds of statements that are jumps. -/
def StatementKind.jumps : List StatementKind := [.returns, .throws, .breaks, .continues]

namespace Skeleton

open Code

variable {skeleton : Skeleton} {s : Nat} {statement : Statement}

/-- No statement is a jump. -/
def JumpFree (skeleton : Skeleton) : Prop :=
  ∀ statement ∈ skeleton.statements.toList, statement.kind ∉ StatementKind.jumps

theorem JumpFree.kind (free : skeleton.JumpFree) (stood : skeleton.statements[s]? = some statement) :
    statement.kind ∉ StatementKind.jumps :=
  free statement (Array.mem_toList_iff.2 (Array.mem_of_getElem? stood))

/-! ## Runs that complete -/

theorem mem_inside {role : Role} {code : Code}
    (there : code ∈ (skeleton.inside? statement role).getD []) :
    ∃ arm ∈ statement.arms.toList, code ∈ skeleton.codeOf arm := by
  unfold inside? at there
  cases found : skeleton.arm? statement role with
  | none =>
    rw [found] at there
    cases there
  | some arm =>
    rw [found] at there
    exact ⟨arm, mem_arms_of_arm? found, there⟩

/-- A statement that is no jump can complete if the code in its arms can. -/
theorem canComplete_statement (stood : skeleton.statements[s]? = some statement)
    (plain : statement.kind ∉ StatementKind.jumps)
    (arms : ∀ arm ∈ statement.arms.toList, ∀ code ∈ skeleton.codeOf arm, code.CanComplete) :
    (skeleton.code s).CanComplete := by
  have inside : ∀ role, ∀ code ∈ (skeleton.inside? statement role).getD [], code.CanComplete := by
    intro role code there
    obtain ⟨arm, below, within⟩ := mem_inside there
    exact arms arm below code within
  intro last
  cases kind : statement.kind with
  | simple =>
    rw [code_single stood (o := .completes) (by simp [kind])]
    exact ⟨[s], .single⟩
  | conditional =>
    obtain ⟨trace, run⟩ := exists_runsAll (inside .whenTrue) false
    rw [code_conditional stood kind]
    exact ⟨s :: trace, .whenTrue run⟩
  | loop =>
    rw [code_loop stood kind]
    exact ⟨[s], .ends⟩
  | switch =>
    rw [code_switch stood kind]
    cases entries : skeleton.casesOf statement with
    | nil => exact ⟨[s], .skips (by simp)⟩
    | cons first rest =>
      have each : ∀ code ∈ fallThrough ((skeleton.casesOf statement).map fun entry =>
          (entry.2, skeleton.codeOf entry.1)), code.CanComplete := by
        intro code there
        obtain ⟨_, listed, within⟩ := List.mem_flatMap.1 there
        obtain ⟨entry, among, rfl⟩ := List.mem_map.1 listed
        exact arms entry.1 (mem_arms_of_casesOf among).1 code within
      obtain ⟨trace, run⟩ := exists_runsAll each false
      rw [entries] at run
      have whole : Runs last (.switch s ([] ++ _ :: _)) (s :: trace)
          (if Outcome.completes = .breaks then .completes else .completes) := .enters run
      exact ⟨s :: trace, whole⟩
  | guarded =>
    rw [code_guarded stood kind]
    cases body : skeleton.inside? statement .guardedBody with
    | none => exact ⟨[s], .bare⟩
    | some codes =>
      have first := inside .guardedBody
      rw [body] at first
      obtain ⟨front, run⟩ := exists_runsAll first (skeleton.inside? statement .handler).isSome
      obtain ⟨back, cleaning⟩ := exists_runsAll (inside .cleanup) false
      exact ⟨s :: (front ++ back), .cleansUp run cleaning⟩
  | _ => simp [kind, StatementKind.jumps] at plain

variable (laid : skeleton.Laid)
include laid

/-- In a body without jumps all code can complete. -/
theorem JumpFree.canComplete_codeOf (free : skeleton.JumpFree) (block : Nat) :
    ∀ code ∈ skeleton.codeOf block, code.CanComplete := by
  -- The arms of the statements of a block are younger than the block.
  induction left : skeleton.blocks.size - block using Nat.strongRecOn generalizing block with
  | ind left ih =>
    intro code there
    rw [codeOf_eq laid] at there
    obtain ⟨s, listed, rfl⟩ := List.mem_map.1 there
    obtain ⟨index, held⟩ := List.getElem?_of_mem listed
    obtain ⟨statement, stood, rfl, -⟩ := laid.knows block index s (by simpa using held)
    refine canComplete_statement stood (free.kind stood) fun arm below => ?_
    obtain ⟨younger, there⟩ := laid.arm_gt stood below
    exact ih _ (by omega) arm rfl

theorem JumpFree.canComplete_code (free : skeleton.JumpFree)
    (stood : skeleton.statements[s]? = some statement) : (skeleton.code s).CanComplete :=
  canComplete_statement stood (free.kind stood) fun arm _ => free.canComplete_codeOf laid arm

/-! ## Walks that leave the body -/

variable (fit : skeleton.ArmsFit) (free : skeleton.JumpFree)
include fit free

/-- A walk that begins behind a statement can be begun at the statement. -/
theorem JumpFree.ends_past (stood : skeleton.statements[s]? = some statement) {back : List Nat}
    (leads : skeleton.Ends (skeleton.arrive statement.block (statement.index + 1)) back) :
    ∃ front, skeleton.Ends (some s) (front ++ back) := by
  obtain ⟨front, run⟩ := free.canComplete_code laid stood (skeleton.isLast statement)
  exact ⟨front, ((faithful laid fit _).statement s statement stood).2 ⟨front, _, back, rfl, run, leads⟩⟩

/-- A walk that begins at the end of a block can be begun at every place in the block. -/
theorem JumpFree.exists_ends_of_leave {block : Nat} (index : Nat)
    (leaves : ∃ trace, skeleton.Ends (lands (skeleton.leave block)) trace) :
    ∃ trace, skeleton.Ends (skeleton.arrive block index) trace := by
  obtain ⟨back, leads⟩ := leaves
  have rest : ∀ code ∈ (skeleton.codeOf block).drop index, code.CanComplete :=
    fun code inside => free.canComplete_codeOf laid block code (List.mem_of_mem_drop inside)
  obtain ⟨front, run⟩ := exists_runsAll rest (skeleton.raising block)
  refine ⟨front ++ back, ((faithful laid fit _).block block index).2 ⟨front, _, back, rfl, run, ?_⟩⟩
  rw [onwards_completes]
  exact leads

/-- What is behind a body or a handler: the cleanup, and what is behind the statement. -/
theorem JumpFree.exists_ends_cleaned (stood : skeleton.statements[s]? = some statement)
    (kind : statement.kind = .guarded) {back : List Nat}
    (leads : skeleton.Ends (skeleton.arrive statement.block (statement.index + 1)) back) :
    ∃ trace, skeleton.Ends (skeleton.cleaned statement) trace := by
  have each : ∀ code ∈ (skeleton.inside? statement .cleanup).getD [], code.CanComplete := by
    intro code there
    obtain ⟨arm, -, within⟩ := mem_inside there
    exact free.canComplete_codeOf laid arm code within
  obtain ⟨front, run⟩ := exists_runsAll each false
  exact ⟨front ++ back, (ends_cleaned laid stood kind fun other _ => faithful laid fit other).2
    ⟨front, _, back, rfl, run, leads⟩⟩

/-- What is behind a case: the cases behind it, and what is behind the switch. -/
theorem JumpFree.exists_ends_case (stood : skeleton.statements[s]? = some statement)
    (kind : statement.kind = .switch) {arm : Nat} (inside : arm ∈ statement.arms.toList)
    {back : List Nat}
    (leads : skeleton.Ends (skeleton.arrive statement.block (statement.index + 1)) back) :
    ∃ trace, skeleton.Ends (lands (skeleton.leave arm)) trace := by
  obtain ⟨before, after, split⟩ := List.append_of_mem inside
  have each : ∀ code ∈ fallThrough (skeleton.caseCodes after), code.CanComplete := by
    intro code there
    obtain ⟨_, listed, within⟩ := List.mem_flatMap.1 there
    obtain ⟨entry, -, rfl⟩ := List.mem_map.1 listed
    exact free.canComplete_codeOf laid entry.1 code within
  obtain ⟨front, run⟩ := exists_runsAll each false
  have past : statement.arms.toList = (before ++ [arm]) ++ after := by rw [split]; simp
  rw [lands_leave_case laid stood fit kind split]
  exact ⟨front ++ back, (ends_cases laid stood fit kind past fun other _ => faithful laid fit other).2
    ⟨front, _, back, rfl, run, leads⟩⟩

/-- From the end of every block a walk leads out of the body. -/
theorem JumpFree.exists_ends_leave (block : Nat) :
    ∃ trace, skeleton.Ends (lands (skeleton.leave block)) trace := by
  induction block using Nat.strongRecOn with
  | ind block ih =>
    cases owned : skeleton.ownerOf? block with
    | none =>
      rw [leave_of_free owned]
      exact ⟨[], .out⟩
    | some owner =>
      obtain ⟨s, role⟩ := owner
      obtain ⟨statement, stood, less⟩ := owner_stands owned
      obtain ⟨back, leads⟩ := free.exists_ends_of_leave laid fit (statement.index + 1) (ih _ less)
      have kind := fit.kind_eq laid owned stood
      cases role with
      | whenTrue => exact ⟨back, lands_leave_plain owned stood (.inl rfl) ▸ leads⟩
      | whenFalse => exact ⟨back, lands_leave_plain owned stood (.inr (.inl rfl)) ▸ leads⟩
      | cleanup => exact ⟨back, lands_leave_plain owned stood (.inr (.inr rfl)) ▸ leads⟩
      | loopBody =>
        obtain ⟨front, again⟩ := free.ends_past laid fit stood leads
        exact ⟨front ++ back, lands_leave_loopBody owned stood ▸ again⟩
      | guardedBody =>
        rw [lands_leave_guarded laid owned stood (.inl rfl)]
        exact free.exists_ends_cleaned laid fit stood kind leads
      | handler =>
        rw [lands_leave_guarded laid owned stood (.inr rfl)]
        exact free.exists_ends_cleaned laid fit stood kind leads
      | case isDefault =>
        exact free.exists_ends_case laid fit stood kind
          ((laid.owns s statement block stood).2 ⟨_, owned⟩) leads

/-- From every place in a block a walk leads out of the body. -/
theorem JumpFree.exists_ends (block index : Nat) :
    ∃ trace, skeleton.Ends (skeleton.arrive block index) trace :=
  free.exists_ends_of_leave laid fit index (free.exists_ends_leave laid fit block)

end Skeleton

/-! ## What a walk comes by -/

theorem Hops.trans {successors : Nat → List Nat} {a b c : Nat} (first : Hops successors a b)
    (rest : Hops successors b c) : Hops successors a c := by
  induction rest with
  | here => exact first
  | more _ step ih => exact .more ih step

namespace Control

variable {skeleton : Skeleton} {s : Nat} {trace : List Nat}

/-- Transfers lead to every statement that a walk goes through. -/
theorem hops_of_ends {place : Option Nat} (ends : skeleton.Ends place trace) (at_ : place = some s) :
    ∀ t ∈ trace, Hops (of skeleton).successors s t := by
  induction ends generalizing s with
  | out => cases at_
  | @step here statement way rest stood inside leads ih =>
    obtain rfl := Option.some.inj at_
    intro t there
    rcases List.mem_cons.1 there with rfl | later
    · exact .here
    · cases landed : Skeleton.lands way.1 with
      | none =>
        rw [landed, Skeleton.ends_none] at leads
        rw [leads] at later
        cases later
      | some next =>
        exact .front ((mem_successors stood next).2 ⟨way, inside, landed⟩) (ih landed t later)

/-- A walk out of the body goes through a statement from which control leaves the body. -/
theorem exists_exit_of_ends {place : Option Nat} (ends : skeleton.Ends place trace)
    (at_ : place = some s) :
    ∃ last, Hops (of skeleton).successors s last ∧ (of skeleton).exitsOf last ≠ [] := by
  induction ends generalizing s with
  | out => cases at_
  | @step here statement way rest stood inside leads ih =>
    obtain rfl := Option.some.inj at_
    cases landed : Skeleton.lands way.1 with
    | none => exact ⟨here, .here, (exitsOf_ne_nil stood).2 ⟨way, inside, landed⟩⟩
    | some next =>
      obtain ⟨last, onwards, out⟩ := ih landed
      exact ⟨last, .front ((mem_successors stood next).2 ⟨way, inside, landed⟩) onwards, out⟩

end Control

end CodeGraph

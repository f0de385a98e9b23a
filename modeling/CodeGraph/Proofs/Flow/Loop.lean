import CodeGraph.Proofs.Flow.DataFlow

/-!
# A loop behind its initialiser

A loop with a header is laid out as two statements in a row (`Region.LoopAt`): the initialiser, which
defines a variable, and the header, which owns the body. Control goes from the initialiser to the header
and nowhere else, and from there into the body. So whatever reads the variable in the body, on a path
that leaves it alone, gets the definition of the initialiser if the header does not write the variable
(`Region.LoopAt.reaches`), and else only what is made elsewhere too (`Region.LoopAt.not_reaches`).
-/

namespace CodeGraph

/-! ## Clear paths -/

/-- A clear path leaves a statement only if the statement does not write. -/
theorem ClearPath.leaves_clear {region : Region} {control : Control} {binding a b : Nat}
    (path : ClearPath region control binding a b) (other : b ≠ a) :
    writes (region.accessesOf a) binding = false := by
  induction path with
  | here => exact absurd rfl other
  | @more b c _ clear _ ih =>
    by_cases same : b = a
    · exact same ▸ clear
    · exact ih same

/-- A clear path can be continued at its front. -/
theorem ClearPath.front {region : Region} {control : Control} {binding a b c : Nat}
    (clear : writes (region.accessesOf a) binding = false) (step : b ∈ control.successors a)
    (path : ClearPath region control binding b c) : ClearPath region control binding a c := by
  induction path with
  | here => exact .more .here clear step
  | more _ clear' step' ih => exact .more ih clear' step'

/-- The last write of a list that ends with a write of the variable. -/
theorem lastWrite?_concat {accesses : List Access} {access : Access} {binding : Nat}
    (written : access.defined? = some binding) :
    lastWrite? (accesses ++ [access]) binding = some access.site := by
  induction accesses with
  | nil => simp [lastWrite?, written]
  | cons first rest ih => rw [List.cons_append, lastWrite?, ih, Option.some_or]

namespace Region

/-- `ReadBehind region binding block s access`: an access of the statement `s` reads a variable, and on
some path of control from the start of the block to that read nothing writes it. -/
structure ReadBehind (region : Region) (binding block s : Nat) (access : Access) : Prop where
  path : ∃ first, region.skeleton.first? block = some first ∧
    ClearPath region (Control.of region.skeleton) binding first s
  stands : ∃ earlier, DataFlow.Stands region (some s) earlier access ∧
    lastWrite? earlier binding = none
  reads : access.used? = some binding

/-- A loop behind its initialiser, as it lies in a region. The initialiser defines the variable last of
all, at its own site. -/
structure LoopAt (region : Region) (initial header body site binding : Nat) : Prop where
  placed : ∃ block index headerSite : Nat,
    region.skeleton.statements[initial]? = some ⟨site, .simple, block, index, #[]⟩ ∧
      region.skeleton.statements[header]? = some ⟨headerSite, .loop, block, index + 1, #[body]⟩
  owned : region.skeleton.ownerOf? body = some (header, .loopBody)
  defines : ∃ earlier,
    region.accessesOf initial = earlier ++ [⟨.write, .node binding, site⟩]

namespace LoopAt

variable {region : Region} {initial header body site binding : Nat}
  (loop : region.LoopAt initial header body site binding)
include loop

/-- The initialiser leaves its definition behind. -/
theorem leaves_definition : lastWrite? (region.accessesOf initial) binding = some site := by
  obtain ⟨earlier, same⟩ := loop.defines
  rw [same]
  exact lastWrite?_concat rfl

/-- Control goes from the initialiser to the header, and nowhere else. -/
theorem successors_initial (laid : region.skeleton.Laid) (next : Nat) :
    next ∈ (Control.of region.skeleton).successors initial ↔ next = header := by
  obtain ⟨block, index, headerSite, first, second⟩ := loop.placed
  have follows : (region.skeleton.statementsOf block)[index + 1]? = some header :=
    laid.stands header _ second
  -- The header stands behind the initialiser, so this is not the last statement of a guarded body.
  have calm : region.skeleton.raisingWay ⟨site, .simple, block, index, #[]⟩ = none := by
    unfold Skeleton.raisingWay
    rw [Skeleton.statementsOf] at follows
    cases found : region.skeleton.blocks[block]? with
    | none => rfl
    | some here =>
      rw [found] at follows
      have more : index + 1 < here.statements.size := (Array.getElem?_eq_some_iff.1 follows).1
      simp only [Option.bind_eq_bind, Option.bind_some]
      cases here.owner with
      | none => rfl
      | some owner =>
        simp only [Option.bind_some]
        cases region.skeleton.statements[owner.1]? with
        | none => rfl
        | some statement =>
          exact if_neg fun both => Nat.ne_of_lt more both.2
  have lands : Skeleton.lands (region.skeleton.after ⟨site, .simple, block, index, #[]⟩) =
      some header := by
    rw [Skeleton.lands_after, Skeleton.arrive, follows]
  rw [Control.mem_successors first]
  simp only [Skeleton.ways, Skeleton.ownWays, calm, Option.toList_none, List.append_nil,
    List.mem_singleton, exists_eq_left, lands, Option.some.injEq]
  exact eq_comm

/-- Control goes from the header into the body. -/
theorem enters_body {first : Nat} (found : region.skeleton.first? body = some first) :
    first ∈ (Control.of region.skeleton).successors header := by
  obtain ⟨block, index, headerSite, -, second⟩ := loop.placed
  have role : region.skeleton.role? body = some .loopBody := by
    rw [Skeleton.role?_eq, loop.owned]
    rfl
  have arm : region.skeleton.arm? ⟨headerSite, .loop, block, index + 1, #[body]⟩ .loopBody =
      some body := by
    simp [Skeleton.arm?, role]
  rw [Control.mem_successors second]
  refine ⟨(region.skeleton.enter body, some .body), ?_, ?_⟩
  · simp [Skeleton.ways, Skeleton.ownWays, arm]
  · rw [Skeleton.enter, found]
    rfl

variable {regionOf : Nat → Option Nat} {regions : List Region} {number s : Nat}
  {earlier : List Access}

/-- Where the header does not write the variable, the definition of the initialiser reaches every read
behind a clear path from the start of the body. -/
theorem reaches (laid : region.skeleton.Laid) {first : Nat}
    (found : region.skeleton.first? body = some first)
    (path : ClearPath region (Control.of region.skeleton) binding first s)
    (clear : writes (region.accessesOf header) binding = false)
    (unwritten : lastWrite? earlier binding = none) :
    DataFlow.Reaches regionOf regions number region (some s) earlier ⟨binding, site⟩ := by
  refine .inr ⟨unwritten, .inl ⟨initial, header, loop.leaves_definition, ?_, ?_⟩⟩
  · exact (loop.successors_initial laid header).2 rfl
  · exact path.front clear (loop.enters_body found)

/-- Where the header writes the variable, the definition of the initialiser reaches no other statement,
unless it is made elsewhere too. -/
theorem not_reaches (laid : region.skeleton.Laid)
    (written : writes (region.accessesOf header) binding = true) (other : s ≠ header)
    (apart : s ≠ initial) (within : ∃ later, region.accessesOf s = earlier ++ later)
    (sole : ∀ place access, access ∈ region.accessesAt place → access.defined? = some binding →
      access.site = site → place = some initial)
    (absent : ¬ DataFlow.LiveAtEntry regionOf regions number region ⟨binding, site⟩) :
    ¬ DataFlow.Reaches regionOf regions number region (some s) earlier ⟨binding, site⟩ := by
  have only : ∀ place accesses, (∀ access ∈ accesses, access ∈ region.accessesAt place) →
      lastWrite? accesses binding = some site → place = some initial := by
    intro place accesses part last
    obtain ⟨access, there, defines, here⟩ := mem_of_lastWrite? last
    exact sole place access (part access there) defines here
  rintro (last | ⟨-, before⟩)
  · obtain ⟨later, split⟩ := within
    refine apart (Option.some.inj (only (some s) earlier (fun access there => ?_) last))
    rw [Region.accessesAt, split]
    exact List.mem_append_left _ there
  · rcases before with ⟨maker, next, last, step, path⟩ | ⟨first, -, last | ⟨-, live⟩, -⟩
    · obtain rfl := Option.some.inj (only (some maker) _ (fun _ there => there) last)
      obtain rfl := (loop.successors_initial laid next).1 step
      rw [path.leaves_clear other] at written
      cases written
    · cases only none _ (fun _ there => there) last
    · exact absent live

end LoopAt

end Region

end CodeGraph

import Mathlib.Data.List.Chain
import CodeGraph.Proofs.Flow.Outline

/-!
# Control flow graphs and structured code

The control flow graph of a region has the complete traces of its structured code and no others
(`Region.Built.completePath_iff_traces`).

The two sides meet in `Skeleton.Faithful`: the sequences that the ways of the skeleton lead through
from a place are the runs of the code there, followed by what comes behind. A step along a way makes
a sequence shorter, which carries the induction; so a loop may be taken as faithful when it is
entered again, although its code has not become smaller. There is one lemma for each kind of
statement (`ends_conditional`, `ends_loop`, …).
-/

namespace CodeGraph

open Continuation

namespace Code

/-- Two continuations that agree on all sequences shorter than a given one follow the same runs of a
statement there: it goes through its own node first. -/
theorem followed_runs_congr {last : Bool} {code : Code} {next other : Continuation}
    {trace : List Nat}
    (agree : ∀ o back, back.length < trace.length → (next o back ↔ other o back)) :
    Followed (Runs last code) next trace ↔ Followed (Runs last code) other trace := by
  have shorter : ∀ {front back : List Nat} {o : Outcome}, Runs last code front o →
      back.length < (front ++ back).length := by
    intro front back o run
    obtain ⟨rest, rfl⟩ := number_head run
    rw [List.length_append, List.length_cons]
    omega
  constructor
  · rintro ⟨front, o, back, rfl, run, goes⟩
    exact ⟨front, o, back, rfl, run, (agree o back (shorter run)).1 goes⟩
  · rintro ⟨front, o, back, rfl, run, goes⟩
    exact ⟨front, o, back, rfl, run, (agree o back (shorter run)).2 goes⟩

end Code

namespace Skeleton

open Code

variable {skeleton : Skeleton} {s : Nat} {statement : Statement} {trace : List Nat}

/-! ## Steps along the ways -/

/-- Some way among the given ones leads through a sequence. -/
def Leads (skeleton : Skeleton) (ways : List Way) (trace : List Nat) : Prop :=
  ∃ way ∈ ways, skeleton.Ends (lands way.1) trace

theorem leads_nil : ¬ skeleton.Leads [] trace := by
  rintro ⟨way, inside, -⟩
  cases inside

theorem leads_cons {way : Way} {rest : List Way} :
    skeleton.Leads (way :: rest) trace ↔
      skeleton.Ends (lands way.1) trace ∨ skeleton.Leads rest trace := by
  simp [Leads]

theorem leads_one {way : Way} : skeleton.Leads [way] trace ↔ skeleton.Ends (lands way.1) trace := by
  rw [leads_cons, or_iff_left leads_nil]

theorem leads_append {front back : List Way} :
    skeleton.Leads (front ++ back) trace ↔
      skeleton.Leads front trace ∨ skeleton.Leads back trace := by
  constructor
  · rintro ⟨way, inside, ends⟩
    rcases List.mem_append.1 inside with there | there
    · exact .inl ⟨way, there, ends⟩
    · exact .inr ⟨way, there, ends⟩
  · rintro (⟨way, there, ends⟩ | ⟨way, there, ends⟩)
    · exact ⟨way, List.mem_append_left _ there, ends⟩
    · exact ⟨way, List.mem_append_right _ there, ends⟩

theorem not_ends_empty : ¬ skeleton.Ends (some s) [] := by
  intro ends
  cases ends

/-- From a statement control goes through it first, and then along one of its ways. -/
theorem ends_step {m : Nat} (stood : skeleton.statements[s]? = some statement) :
    skeleton.Ends (some s) (m :: trace) ↔
      m = s ∧ skeleton.Leads (skeleton.ways statement) trace := by
  constructor
  · intro ends
    cases ends with
    | step held inside onward =>
      obtain rfl := Option.some.inj (held.symm.trans stood)
      exact ⟨rfl, _, inside, onward⟩
  · rintro ⟨rfl, way, inside, onward⟩
    exact .step stood inside onward

/-! ## The throw behind the last statement of a guarded body -/

/-- Whether a block is a guarded body with a handler. -/
def raising (skeleton : Skeleton) (block : Nat) : Bool :=
  match skeleton.ownerOf? block with
  | some (number, .guardedBody) =>
    (skeleton.statements[number]?.bind fun owner => skeleton.arm? owner .handler).isSome
  | _ => false

/-- Whether a statement is the last one of a guarded body with a handler. -/
def isLast (skeleton : Skeleton) (statement : Statement) : Bool :=
  skeleton.raising statement.block &&
    statement.index + 1 == (skeleton.statementsOf statement.block).size

theorem raising_of_owned {arm : Nat} {role : Role}
    (owned : skeleton.ownerOf? arm = some (s, role))
    (stood : skeleton.statements[s]? = some statement) :
    skeleton.raising arm = skeleton.takesThrow statement role := by
  unfold raising takesThrow
  rw [owned]
  cases role <;> simp [stood]

theorem raising_of_free {block : Nat} (free : skeleton.ownerOf? block = none) :
    skeleton.raising block = false := by
  unfold raising
  rw [free]

/-- The way into the handler at the end of a guarded body is the throw that the reference allows
there. -/
theorem leads_raisingWay (statement : Statement) (trace : List Nat) :
    skeleton.Leads (skeleton.raisingWay statement).toList trace ↔
      Raised (skeleton.isLast statement) (skeleton.behind statement) trace := by
  unfold raisingWay Raised isLast
  cases found : skeleton.blocks[statement.block]? with
  | none =>
    have free : skeleton.ownerOf? statement.block = none := by rw [ownerOf?, found]; rfl
    simp [raising_of_free free, leads_nil]
  | some here =>
    have size : here.statements = skeleton.statementsOf statement.block := by
      rw [statementsOf, found]; rfl
    cases owner : here.owner with
    | none =>
      have free : skeleton.ownerOf? statement.block = none := by
        rw [ownerOf?, found]; exact owner
      simp [owner, raising_of_free free, leads_nil]
    | some pair =>
      obtain ⟨number, role⟩ := pair
      have owned : skeleton.ownerOf? statement.block = some (number, role) := by
        rw [ownerOf?, found]; exact owner
      obtain ⟨outer, stood, -⟩ := owner_stands owned
      simp only [Option.bind_eq_bind, Option.bind_some, owner, stood, ← size,
        raising_of_owned owned stood]
      by_cases taken : skeleton.takesThrow outer role = true
      · obtain ⟨inside, handled⟩ := Bool.and_eq_true_iff.1 taken
        obtain rfl : role = .guardedBody := by simpa using inside
        obtain ⟨handler, found⟩ := Option.isSome_iff_exists.1 handled
        have thrown : skeleton.behind statement .throws
            = skeleton.Ends (skeleton.arrive handler 0) := by
          funext rest
          simp [behind, completing, onwards, resume_throws owned stood, taken, found]
        rw [thrown]
        by_cases atEnd : statement.index + 1 = here.statements.size
        · simp [atEnd, taken, handlerWay, found, leads_one, lands_enter]
        · simp [atEnd, leads_nil]
      · have none : ∀ way, way ∉ (if role = .guardedBody ∧ statement.index + 1
            = here.statements.size then skeleton.handlerWay outer else none).toList := by
          intro way inside
          split at inside
          · next both =>
            obtain ⟨arm, handled, -⟩ := Option.map_eq_some_iff.1 (Option.mem_toList.1 inside)
            exact taken (by simp [takesThrow, both.1, handled])
          · cases inside
        constructor
        · rintro ⟨way, inside, -⟩
          exact absurd inside (none way)
        · rintro ⟨both, -⟩
          exact absurd (Bool.and_eq_true_iff.1 both).1 taken

/-! ## The code of a statement -/

section CodeOf

variable (stood : skeleton.statements[s]? = some statement)
include stood

/-- The code inside an arm of a statement. -/
def inside? (skeleton : Skeleton) (statement : Statement) (role : Role) : Option (List Code) :=
  (skeleton.arm? statement role).map skeleton.codeOf

theorem code_single {o : Outcome}
    (kind : (statement.kind, o) ∈ [(StatementKind.simple, Outcome.completes),
      (.returns, .returns), (.throws, .throws), (.breaks, .breaks), (.continues, .continues)]) :
    skeleton.code s = .single s o := by
  unfold code codeWith
  simp only [stood]
  simp only [List.mem_cons, Prod.mk.injEq, List.not_mem_nil, or_false] at kind
  rcases kind with ⟨kind, rfl⟩ | ⟨kind, rfl⟩ | ⟨kind, rfl⟩ | ⟨kind, rfl⟩ | ⟨kind, rfl⟩ <;> rw [kind]

theorem code_conditional (kind : statement.kind = .conditional) :
    skeleton.code s = .conditional s ((skeleton.inside? statement .whenTrue).getD [])
      ((skeleton.inside? statement .whenFalse).getD []) := by
  unfold code codeWith
  simp only [stood, kind]
  rfl

theorem code_loop (kind : statement.kind = .loop) :
    skeleton.code s = .loop s (skeleton.inside? statement .loopBody) := by
  unfold code codeWith
  simp only [stood, kind]
  rfl

theorem code_switch (kind : statement.kind = .switch) :
    skeleton.code s = .switch s
      ((skeleton.casesOf statement).map fun entry => (entry.2, skeleton.codeOf entry.1)) := by
  unfold code codeWith
  simp only [stood, kind]

theorem code_guarded (kind : statement.kind = .guarded) :
    skeleton.code s = .guarded s (skeleton.inside? statement .guardedBody)
      (skeleton.inside? statement .handler) ((skeleton.inside? statement .cleanup).getD []) := by
  unfold code codeWith
  simp only [stood, kind]
  rfl

end CodeOf

/-! ## Faithful sequences -/

/-- What comes from a place in a block on: the rest of its code, and then what follows the block. -/
def From (skeleton : Skeleton) (block index : Nat) : List Nat → Prop :=
  Followed (RunsAll (skeleton.raising block) ((skeleton.codeOf block).drop index))
    (skeleton.onwards block)

/-- What comes from a statement on: its code, and then what is behind it. -/
def FromStatement (skeleton : Skeleton) (s : Nat) (statement : Statement) : List Nat → Prop :=
  Followed (Runs (skeleton.isLast statement) (skeleton.code s)) (skeleton.behind statement)

/-- For a sequence, walks along the ways and runs of the code agree, wherever they start. -/
structure Faithful (skeleton : Skeleton) (trace : List Nat) : Prop where
  block : ∀ block index : Nat,
    skeleton.Ends (skeleton.arrive block index) trace ↔ skeleton.From block index trace
  statement : ∀ (s : Nat) (statement : Statement), skeleton.statements[s]? = some statement →
    (skeleton.Ends (some s) trace ↔ skeleton.FromStatement s statement trace)

/-- Sequences up to the length of a given one are faithful. -/
def FaithfulUpTo (skeleton : Skeleton) (trace : List Nat) : Prop :=
  ∀ other : List Nat, other.length ≤ trace.length → skeleton.Faithful other

theorem FaithfulUpTo.shorter {back : List Nat} (faithful : skeleton.FaithfulUpTo trace)
    (shorter : back.length ≤ trace.length) : skeleton.FaithfulUpTo back :=
  fun other less => faithful other (Nat.le_trans less shorter)

section Arms

variable (laid : skeleton.Laid) (stood : skeleton.statements[s]? = some statement)
  (faithful : skeleton.FaithfulUpTo trace)
include faithful

/-- The way into an arm leads through its code, and then through what follows the arm. -/
theorem ends_arm (arm : Nat) :
    skeleton.Ends (lands (skeleton.enter arm)) trace ↔
      Followed (RunsAll (skeleton.raising arm) (skeleton.codeOf arm)) (skeleton.onwards arm)
        trace := by
  rw [lands_enter]
  exact (faithful trace (Nat.le_refl _)).block arm 0

include laid stood

/-- An arm of a conditional, or a cleanup, leads to what is behind the statement; without the arm
control goes there at once. -/
theorem ends_plain {role : Role}
    (plain : role = .whenTrue ∨ role = .whenFalse ∨ role = .cleanup)
    (kind : statement.kind = .conditional ∨ statement.kind = .guarded) :
    skeleton.Ends (lands (skeleton.armOrAfter statement role)) trace ↔
      Followed (RunsAll false ((skeleton.inside? statement role).getD []))
        (skeleton.behind statement) trace := by
  unfold armOrAfter inside?
  cases found : skeleton.arm? statement role with
  | none =>
    simp only [Option.map_none, Option.getD_none]
    rw [followed_nil, lands_after]
    rfl
  | some arm =>
    have owned := laid.owned_of_arm? stood found
    have quiet : skeleton.raising arm = false := by
      rw [raising_of_owned owned stood]
      rcases plain with rfl | rfl | rfl <;> rfl
    simp only [Option.map_some, Option.getD_some]
    rw [ends_arm faithful, quiet, onwards_plain owned stood plain kind]

theorem ends_conditional (kind : statement.kind = .conditional) :
    skeleton.Leads (skeleton.ways statement) trace ↔
      Followed (Runs (skeleton.isLast statement) (skeleton.code s)) (skeleton.behind statement)
        (s :: trace) := by
  rw [code_conditional stood kind, followed_conditional, ways, leads_append, leads_raisingWay]
  simp only [ownWays, kind]
  rw [leads_cons, leads_one, ends_plain laid stood faithful (.inl rfl) (.inl kind),
    ends_plain laid stood faithful (.inr (.inl rfl)) (.inl kind)]

theorem ends_loop (kind : statement.kind = .loop) :
    skeleton.Leads (skeleton.ways statement) trace ↔
      Followed (Runs (skeleton.isLast statement) (skeleton.code s)) (skeleton.behind statement)
        (s :: trace) := by
  rw [ways, leads_append, leads_raisingWay]
  simp only [ownWays, kind]
  rw [leads_append, leads_one, lands_after, code_loop stood kind, inside?]
  cases found : skeleton.arm? statement .loopBody with
  | none =>
    simp only [Option.map_none, Option.toList_none, leads_nil, false_or]
    rw [followed_bare_loop]
    rfl
  | some body =>
    have owned := laid.owned_of_arm? stood found
    have quiet : skeleton.raising body = false := raising_of_owned owned stood
    simp only [Option.map_some, Option.toList_some]
    rw [followed_loop, leads_one, ends_arm faithful, quiet, onwards_loopBody owned stood kind]
    refine or_congr (or_comm.trans (or_congr Iff.rfl (followed_congr fun o back shorter => ?_)))
      Iff.rfl
    have again : skeleton.Ends (some s) back ↔ Followed (Runs (skeleton.isLast statement)
        (.loop s (some (skeleton.codeOf body)))) (skeleton.behind statement) back := by
      rw [(faithful back shorter).statement s statement stood, FromStatement,
        code_loop stood kind, inside?, found, Option.map_some]
    cases o with
    | completes => exact again
    | continues => exact again
    | _ => rfl

end Arms

/-! ## Switches -/

section Cases

variable (laid : skeleton.Laid) (stood : skeleton.statements[s]? = some statement)

/-- The cases among some arms, each with the mark whether it is the default. -/
def casesAmong (skeleton : Skeleton) (arms : List Nat) : List (Nat × Bool) :=
  arms.filterMap fun arm =>
    match skeleton.role? arm with
    | some (.case isDefault) => some (arm, isDefault)
    | _ => none

theorem casesAmong_cons {arm : Nat} {arms : List Nat} {isDefault : Bool}
    (role : skeleton.role? arm = some (.case isDefault)) :
    skeleton.casesAmong (arm :: arms) = (arm, isDefault) :: skeleton.casesAmong arms := by
  rw [casesAmong, List.filterMap_cons, role]
  rfl

/-- The code of the cases among some arms. -/
def caseCodes (skeleton : Skeleton) (arms : List Nat) : List (Bool × List Code) :=
  (skeleton.casesAmong arms).map fun entry => (entry.2, skeleton.codeOf entry.1)

include laid stood

/-- The arms of a switch are cases. -/
theorem owned_case (fit : skeleton.ArmsFit) (kind : statement.kind = .switch) (arm : Nat)
    (there : arm ∈ statement.arms.toList) :
    ∃ isDefault, skeleton.ownerOf? arm = some (s, .case isDefault) := by
  obtain ⟨role, owned⟩ := laid.owned stood there
  have fits := fit.kind_eq laid owned stood
  rw [kind] at fits
  cases role with
  | case isDefault => exact ⟨isDefault, owned⟩
  | _ => cases fits

theorem armsAfter_split {arm : Nat} {front back : List Nat}
    (split : statement.arms.toList = front ++ arm :: back) : armsAfter statement arm = back := by
  have sorted := laid.arms_sorted s statement stood
  rw [split, List.pairwise_append] at sorted
  have before : ∀ other ∈ front, decide (other ≠ arm) = true := by
    intro other inside
    have less := sorted.2.2 other inside arm List.mem_cons_self
    exact decide_eq_true (Nat.ne_of_lt less)
  rw [armsAfter, split, List.dropWhile_append_of_pos before]
  simp

omit laid stood in
/-- Where control is that comes to the first of some arms of a switch: in that arm, or behind the
switch if there is none. -/
def arriveAmong (skeleton : Skeleton) (statement : Statement) : List Nat → Option Nat
  | [] => skeleton.arrive statement.block (statement.index + 1)
  | arm :: _ => skeleton.arrive arm 0

/-- A case leads into the next case, and the last one behind the switch. -/
theorem lands_leave_case (fit : skeleton.ArmsFit) (kind : statement.kind = .switch) {arm : Nat}
    {front back : List Nat} (split : statement.arms.toList = front ++ arm :: back) :
    lands (skeleton.leave arm) = skeleton.arriveAmong statement back := by
  have through : ∀ (front : List Nat) (arm : Nat) (back : List Nat),
      statement.arms.toList = front ++ arm :: back → skeleton.leave arm =
        skeleton.throughArms s statement (skeleton.after statement) back := by
    intro front arm back split
    obtain ⟨isDefault, owned⟩ := owned_case laid stood fit kind arm (by rw [split]; simp)
    rw [leave_of_owned owned stood, beyond, armsAfter_split laid stood split]
  rw [through front arm back split]
  cases back with
  | nil => exact lands_after skeleton statement
  | cons next rest =>
    -- Entering an empty case leads to where its end leads.
    have further := through (front ++ [arm]) next rest (by rw [split]; simp)
    obtain ⟨isDefault, owned⟩ := owned_case laid stood fit kind next (by rw [split]; simp)
    have role : skeleton.role? next = some (.case isDefault) := by rw [role?_eq, owned]; rfl
    rw [arriveAmong]
    unfold throughArms first? arrive
    cases (skeleton.statementsOf next)[0]? with
    | some first => rfl
    | none => simp only [role, further]

/-- Coming to a case leads through its code and that of the cases behind it. -/
theorem ends_cases (fit : skeleton.ArmsFit) (kind : statement.kind = .switch) {front back : List Nat}
    (split : statement.arms.toList = front ++ back) (faithful : skeleton.FaithfulUpTo trace) :
    skeleton.Ends (skeleton.arriveAmong statement back) trace ↔
      Followed (RunsAll false (fallThrough (skeleton.caseCodes back)))
        (skeleton.behind statement).switching trace := by
  induction back generalizing front trace with
  | nil =>
    have nothing : fallThrough (skeleton.caseCodes []) = [] := rfl
    rw [nothing, followed_nil]
    rfl
  | cons arm back ih =>
    obtain ⟨isDefault, owned⟩ := owned_case laid stood fit kind arm (by rw [split]; simp)
    have role : skeleton.role? arm = some (.case isDefault) := by rw [role?_eq, owned]; rfl
    have quiet : skeleton.raising arm = false := raising_of_owned owned stood
    have here : fallThrough (skeleton.caseCodes (arm :: back)) =
        skeleton.codeOf arm ++ fallThrough (skeleton.caseCodes back) := by
      rw [caseCodes, casesAmong_cons role]
      rfl
    have rest : statement.arms.toList = (front ++ [arm]) ++ back := by rw [split]; simp
    rw [here, followed_append, arriveAmong, ← lands_enter, ends_arm faithful, quiet,
      onwards_case owned stood kind, lands_leave_case laid stood fit kind split]
    refine followed_congr fun o behind shorter => ?_
    cases o with
    | completes => exact ih rest (faithful.shorter shorter)
    | _ => rfl

/-- The ways into the cases of a switch lead through the code from one of the cases on. -/
theorem leads_cases (fit : skeleton.ArmsFit) (kind : statement.kind = .switch) {front back : List Nat}
    (split : statement.arms.toList = front ++ back) (faithful : skeleton.FaithfulUpTo trace) :
    skeleton.Leads ((skeleton.casesAmong back).map fun entry =>
        (skeleton.enter entry.1, some Label.case)) trace ↔
      ∃ before here after, skeleton.caseCodes back = before ++ here :: after ∧
        Followed (RunsAll false (fallThrough (here :: after)))
          (skeleton.behind statement).switching trace := by
  induction back generalizing front with
  | nil => simp [leads_nil, casesAmong, caseCodes]
  | cons arm back ih =>
    have enters := ends_cases laid stood fit kind split faithful
    obtain ⟨isDefault, owned⟩ := owned_case laid stood fit kind arm (by rw [split]; simp)
    have role : skeleton.role? arm = some (.case isDefault) := by rw [role?_eq, owned]; rfl
    have codes : skeleton.caseCodes (arm :: back) =
        (isDefault, skeleton.codeOf arm) :: skeleton.caseCodes back := by
      rw [caseCodes, casesAmong_cons role]
      rfl
    have rest : statement.arms.toList = (front ++ [arm]) ++ back := by rw [split]; simp
    rw [casesAmong_cons role, List.map_cons, leads_cons, lands_enter, ih rest, codes]
    rw [arriveAmong, codes] at enters
    constructor
    · rintro (ends | ⟨before, here, after, later, goes⟩)
      · exact ⟨[], _, _, rfl, enters.1 ends⟩
      · exact ⟨_ :: before, here, after, by rw [later]; rfl, goes⟩
    · rintro ⟨before, here, after, same, goes⟩
      cases before with
      | nil =>
        obtain ⟨rfl, rfl⟩ := List.cons.inj same
        exact .inl (enters.2 goes)
      | cons first before =>
        exact .inr ⟨before, here, after, (List.cons.inj same).2, goes⟩

theorem ends_switch (fit : skeleton.ArmsFit) (kind : statement.kind = .switch)
    (faithful : skeleton.FaithfulUpTo trace) :
    skeleton.Leads (skeleton.ways statement) trace ↔
      Followed (Runs (skeleton.isLast statement) (skeleton.code s)) (skeleton.behind statement)
        (s :: trace) := by
  have cases := leads_cases laid stood fit kind (List.nil_append _).symm faithful
  have code : skeleton.code s = .switch s (skeleton.caseCodes statement.arms.toList) :=
    code_switch stood kind
  have own : skeleton.ownWays statement =
      ((skeleton.casesAmong statement.arms.toList).map fun entry =>
          (skeleton.enter entry.1, some Label.case)) ++
        if (skeleton.casesAmong statement.arms.toList).any Prod.snd then []
        else [(skeleton.after statement, some Label.exit)] := by
    unfold ownWays
    rw [kind]
    rfl
  rw [ways, leads_append, leads_raisingWay, own, leads_append, cases, code, followed_switch]
  refine or_congr (or_congr Iff.rfl ?_) Iff.rfl
  have default : (∀ here ∈ skeleton.caseCodes statement.arms.toList, here.1 = false) ↔
      ¬ (skeleton.casesAmong statement.arms.toList).any Prod.snd = true := by
    simp [caseCodes]
  rw [default]
  split
  · next some => simp [leads_nil, some]
  · next none =>
    rw [leads_one, lands_after]
    exact (and_iff_right none).symm

end Cases

/-! ## Guarded statements -/

section Guarded

variable (laid : skeleton.Laid) (stood : skeleton.statements[s]? = some statement)
  (kind : statement.kind = .guarded) (faithful : skeleton.FaithfulUpTo trace)
include laid stood kind faithful

/-- Behind a body or a handler comes the cleanup. -/
theorem ends_cleaned :
    skeleton.Ends (skeleton.cleaned statement) trace ↔
      Followed (RunsAll false ((skeleton.inside? statement .cleanup).getD []))
        (skeleton.behind statement) trace := by
  rw [← ends_plain laid stood faithful (.inr (.inr rfl)) (.inr kind)]
  unfold cleaned armOrAfter
  cases skeleton.arm? statement .cleanup with
  | none => simp only [lands_after]
  | some cleanup => simp only [lands_enter]

/-- The handler is followed by the cleanup. -/
theorem ends_handler {handler : Nat} (found : skeleton.arm? statement .handler = some handler) :
    skeleton.Ends (skeleton.arrive handler 0) trace ↔
      caught (skeleton.behind statement) ((skeleton.inside? statement .cleanup).getD [])
        (skeleton.inside? statement .handler) trace := by
  have owned := laid.owned_of_arm? stood found
  have quiet : skeleton.raising handler = false := raising_of_owned owned stood
  rw [inside?, inside?, found, Option.map_some, caught, followed_append, ← lands_enter,
    ends_arm faithful, quiet, onwards_handler laid owned stood kind]
  refine followed_congr fun o rest shorter => ?_
  cases o with
  | completes => exact ends_cleaned laid stood kind (faithful.shorter shorter)
  | _ => rfl

/-- The body is followed by the cleanup, and a throw inside it by the handler. -/
theorem ends_body {body : Nat} (found : skeleton.arm? statement .guardedBody = some body) :
    skeleton.Ends (skeleton.arrive body 0) trace ↔
      Followed (RunsAll (skeleton.inside? statement .handler).isSome (skeleton.codeOf body))
        ((skeleton.behind statement).guarding
          (Followed (RunsAll false ((skeleton.inside? statement .cleanup).getD []))
            (skeleton.behind statement))
          (caught (skeleton.behind statement) ((skeleton.inside? statement .cleanup).getD [])
            (skeleton.inside? statement .handler))) trace := by
  have owned := laid.owned_of_arm? stood found
  have marked : skeleton.raising body = (skeleton.inside? statement .handler).isSome := by
    rw [raising_of_owned owned stood, takesThrow, inside?, Option.isSome_map]
    rfl
  rw [← lands_enter, ends_arm faithful, marked, onwards_guardedBody laid owned stood kind]
  refine followed_congr fun o rest shorter => ?_
  cases o with
  | completes => exact ends_cleaned laid stood kind (faithful.shorter shorter)
  | throws =>
    cases handled : skeleton.arm? statement .handler with
    | none =>
      rw [inside?, inside?, handled]
      rfl
    | some handler =>
      exact ends_handler laid stood kind (faithful.shorter shorter) handled
  | _ => rfl

theorem ends_guarded :
    skeleton.Leads (skeleton.ways statement) trace ↔
      Followed (Runs (skeleton.isLast statement) (skeleton.code s)) (skeleton.behind statement)
        (s :: trace) := by
  rw [ways, leads_append, leads_raisingWay, code_guarded stood kind, followed_guarded]
  simp only [ownWays, kind]
  rw [leads_cons]
  refine or_congr (or_congr ?inside ?atOnce) Iff.rfl
  case inside =>
    unfold armOrAfter
    cases found : skeleton.arm? statement .guardedBody with
    | none =>
      rw [inside?, found, lands_after]
      rfl
    | some body =>
      simp only [lands_enter]
      rw [ends_body laid stood kind faithful found]
      simp only [inside?, found, Option.map_some]
  case atOnce =>
    have nothing : ((skeleton.arm? statement .guardedBody).bind skeleton.first?).isNone = true ↔
        (skeleton.inside? statement .guardedBody).getD [] = [] := by
      rw [inside?]
      cases skeleton.arm? statement .guardedBody with
      | none => simp
      | some body => simp [first?, codeOf_eq laid]
    rw [← nothing]
    cases found : skeleton.arm? statement .handler with
    | none => simp [handlerWay, inside?, found, leads_nil]
    | some handler =>
      have there : (skeleton.inside? statement .handler).isSome = true := by
        rw [inside?, found]
        rfl
      have way : (skeleton.handlerWay statement).toList =
          [(skeleton.enter handler, some .exception)] := by
        rw [handlerWay, found]
        rfl
      rw [← ends_handler laid stood kind faithful found, way]
      split
      · next empty => simp [empty, there, leads_one, lands_enter]
      · next some => simp [some, leads_nil]

end Guarded

/-! ## Jumps -/

section Jumps

variable (stood : skeleton.statements[s]? = some statement)
include stood

/-- A statement with nothing inside it leads to what is behind it. -/
theorem ends_single {o : Outcome}
    (kind : (statement.kind, o) ∈ [(StatementKind.simple, Outcome.completes),
      (.returns, .returns), (.throws, .throws), (.breaks, .breaks), (.continues, .continues)])
    (own : skeleton.Leads (skeleton.ownWays statement) trace ↔ skeleton.behind statement o trace) :
    skeleton.Leads (skeleton.ways statement) trace ↔
      Followed (Runs (skeleton.isLast statement) (skeleton.code s)) (skeleton.behind statement)
        (s :: trace) := by
  rw [ways, leads_append, leads_raisingWay, code_single stood kind, followed_single, own]

omit stood in
theorem leads_toList {way : Option Way} :
    skeleton.Leads way.toList trace ↔ ∃ w, way = some w ∧ skeleton.Ends (lands w.1) trace := by
  simp [Leads]

theorem ends_simple (kind : statement.kind = .simple) :
    skeleton.Leads (skeleton.ways statement) trace ↔
      Followed (Runs (skeleton.isLast statement) (skeleton.code s)) (skeleton.behind statement)
        (s :: trace) := by
  refine ends_single stood (o := .completes) (by simp [kind]) ?_
  simp only [ownWays, kind]
  rw [leads_one, lands_after]
  rfl

theorem ends_returns (kind : statement.kind = .returns) :
    skeleton.Leads (skeleton.ways statement) trace ↔
      Followed (Runs (skeleton.isLast statement) (skeleton.code s)) (skeleton.behind statement)
        (s :: trace) := by
  refine ends_single stood (o := .returns) (by simp [kind]) ?_
  have goes : skeleton.behind statement .returns = skeleton.Ends none := onwards_returns
  simp only [ownWays, kind]
  rw [leads_one, goes]
  rfl

theorem ends_breaks (kind : statement.kind = .breaks) :
    skeleton.Leads (skeleton.ways statement) trace ↔
      Followed (Runs (skeleton.isLast statement) (skeleton.code s)) (skeleton.behind statement)
        (s :: trace) := by
  refine ends_single stood (o := .breaks) (by simp [kind]) ?_
  have own : skeleton.ownWays statement =
      ((skeleton.enclosing takesBreak statement.block).map fun owner =>
        (skeleton.after owner.2, some Label.breaks)).toList := by
    unfold ownWays
    rw [kind]
    rfl
  have goes : skeleton.behind statement .breaks trace ↔ ∃ place,
      ((skeleton.enclosing takesBreak statement.block).map fun owner =>
        skeleton.arrive owner.2.block (owner.2.index + 1)) = some place ∧
        skeleton.Ends place trace := Iff.rfl
  rw [own, goes, leads_toList]
  cases skeleton.enclosing takesBreak statement.block with
  | none => simp
  | some owner => simp [lands_after]

theorem ends_continues (kind : statement.kind = .continues) :
    skeleton.Leads (skeleton.ways statement) trace ↔
      Followed (Runs (skeleton.isLast statement) (skeleton.code s)) (skeleton.behind statement)
        (s :: trace) := by
  refine ends_single stood (o := .continues) (by simp [kind]) ?_
  have own : skeleton.ownWays statement =
      ((skeleton.enclosing takesContinue statement.block).map fun owner =>
        (some { statement := owner.1, back := true }, none)).toList := by
    unfold ownWays
    rw [kind]
    rfl
  have goes : skeleton.behind statement .continues trace ↔ ∃ place,
      ((skeleton.enclosing takesContinue statement.block).map fun owner => some owner.1) =
        some place ∧ skeleton.Ends place trace := Iff.rfl
  rw [own, goes, leads_toList]
  cases skeleton.enclosing takesContinue statement.block with
  | none => simp
  | some owner => simp [lands]

theorem ends_throws (kind : statement.kind = .throws) :
    skeleton.Leads (skeleton.ways statement) trace ↔
      Followed (Runs (skeleton.isLast statement) (skeleton.code s)) (skeleton.behind statement)
        (s :: trace) := by
  refine ends_single stood (o := .throws) (by simp [kind]) ?_
  have own : skeleton.ownWays statement =
      [((skeleton.enclosing skeleton.takesThrow statement.block).bind fun owner =>
        skeleton.handlerWay owner.2).getD (none, some .exception)] := by
    unfold ownWays
    rw [kind]
    rfl
  have goes : skeleton.behind statement .throws trace ↔ skeleton.Ends
      (((skeleton.enclosing skeleton.takesThrow statement.block).bind fun owner =>
        skeleton.arm? owner.2 .handler).bind fun handler => skeleton.arrive handler 0) trace := by
    constructor
    · rintro ⟨place, same, ends⟩
      exact Option.some.inj same ▸ ends
    · exact fun ends => ⟨_, rfl, ends⟩
  rw [own, goes, leads_one]
  cases skeleton.enclosing skeleton.takesThrow statement.block with
  | none => rfl
  | some owner =>
    simp only [Option.bind_some, handlerWay]
    cases skeleton.arm? owner.2 .handler with
    | none => rfl
    | some handler =>
      simp only [Option.map_some, Option.getD_some, Option.bind_some]
      rw [lands_enter]

end Jumps

/-! ## Walks and runs agree -/

/-- From a statement walks and runs agree, if they do on shorter sequences. -/
theorem ends_statement (laid : skeleton.Laid) (fit : skeleton.ArmsFit)
    (stood : skeleton.statements[s]? = some statement) (faithful : skeleton.FaithfulUpTo trace) :
    skeleton.Leads (skeleton.ways statement) trace ↔
      Followed (Runs (skeleton.isLast statement) (skeleton.code s)) (skeleton.behind statement)
        (s :: trace) := by
  cases kind : statement.kind with
  | simple => exact ends_simple stood kind
  | conditional => exact ends_conditional laid stood faithful kind
  | loop => exact ends_loop laid stood faithful kind
  | switch => exact ends_switch laid stood fit kind faithful
  | guarded => exact ends_guarded laid stood kind faithful
  | returns => exact ends_returns stood kind
  | throws => exact ends_throws stood kind
  | breaks => exact ends_breaks stood kind
  | continues => exact ends_continues stood kind

/-- The code from a statement of a block on is the statement and the rest. -/
theorem drop_codeOf (laid : skeleton.Laid) {block index : Nat}
    (there : (skeleton.statementsOf block)[index]? = some s) :
    (skeleton.codeOf block).drop index =
      skeleton.code s :: (skeleton.codeOf block).drop (index + 1) := by
  rw [codeOf_eq laid, ← List.map_drop, ← List.map_drop]
  have split : (skeleton.statementsOf block).toList.drop index =
      s :: (skeleton.statementsOf block).toList.drop (index + 1) := by
    rw [List.drop_eq_getElem?_toList_append, Array.getElem?_toList, there]
    rfl
  rw [split, List.map_cons]

/-- Coming to a place in a block leads through the rest of the block. -/
theorem faithful_block (laid : skeleton.Laid) {block index : Nat}
    (shorter : ∀ other : List Nat, other.length < trace.length → skeleton.Faithful other)
    (statements : ∀ (s : Nat) (statement : Statement), skeleton.statements[s]? = some statement →
      (skeleton.Ends (some s) trace ↔ skeleton.FromStatement s statement trace)) :
    skeleton.Ends (skeleton.arrive block index) trace ↔ skeleton.From block index trace := by
  unfold From
  cases there : (skeleton.statementsOf block)[index]? with
  | none =>
    have past : (skeleton.codeOf block).drop index = [] := by
      rw [List.drop_eq_nil_iff, codeOf_eq laid, List.length_map, Array.length_toList]
      exact Array.getElem?_eq_none_iff.1 there
    rw [past, followed_nil, onwards_completes, arrive, there]
  | some s =>
    obtain ⟨statement, stood, rfl, rfl⟩ := laid.knows block index s there
    have last : skeleton.isLast statement = (skeleton.raising statement.block &&
        ((skeleton.codeOf statement.block).drop (statement.index + 1)).isEmpty) := by
      have inside := (Array.getElem?_eq_some_iff.1 there).1
      have atEnd : (statement.index + 1 == (skeleton.statementsOf statement.block).size) =
          ((skeleton.codeOf statement.block).drop (statement.index + 1)).isEmpty := by
        rw [Bool.eq_iff_iff, beq_iff_eq, List.isEmpty_iff, List.drop_eq_nil_iff, codeOf_eq laid,
          List.length_map, Array.length_toList]
        omega
      rw [isLast, atEnd]
    rw [drop_codeOf laid there, followed_cons, arrive, there, ← last,
      statements s statement stood, FromStatement]
    refine followed_runs_congr fun o back less => ?_
    cases o with
    | completes => exact (shorter back less).block statement.block (statement.index + 1)
    | _ => rfl

/-- Walks and runs agree on every sequence, wherever they start. -/
theorem faithful (laid : skeleton.Laid) (fit : skeleton.ArmsFit) (trace : List Nat) :
    skeleton.Faithful trace := by
  induction length : trace.length using Nat.strongRecOn generalizing trace with
  | ind n ih =>
    subst length
    have shorter : ∀ other : List Nat, other.length < trace.length → skeleton.Faithful other :=
      fun other less => ih other.length less other rfl
    have statements : ∀ (s : Nat) (statement : Statement),
        skeleton.statements[s]? = some statement →
        (skeleton.Ends (some s) trace ↔ skeleton.FromStatement s statement trace) := by
      intro s statement stood
      cases trace with
      | nil => exact iff_of_false not_ends_empty not_followed_empty
      | cons m rest =>
        have rests : skeleton.FaithfulUpTo rest :=
          fun other less => shorter other (Nat.lt_succ_of_le less)
        have own : (skeleton.code s).number = s := number_codeWith skeleton _ s
        rw [ends_step stood, ends_statement laid fit stood rests]
        constructor
        · rintro ⟨rfl, goes⟩
          exact goes
        · intro goes
          obtain ⟨same, goes⟩ := followed_number goes
          rw [own] at same goes
          exact ⟨same, goes⟩
    exact ⟨fun block index => faithful_block laid shorter statements, statements⟩

/-! ## The whole body -/

theorem ends_none : skeleton.Ends none trace ↔ trace = [] := by
  constructor
  · intro ends
    cases ends
    rfl
  · rintro rfl
    exact .out

theorem ends_nil {place : Option Nat} : skeleton.Ends place [] ↔ place = none := by
  cases place with
  | none => exact iff_of_true .out rfl
  | some s => exact iff_of_false not_ends_empty (by simp)

/-- What may follow the root is nothing, and nothing takes up a break or a continuation. -/
theorem onwards_root (laid : skeleton.Laid) (o : Outcome) :
    skeleton.onwards root o trace ↔
      (o = .completes ∨ o = .returns ∨ o = .throws) ∧ trace = [] := by
  have free := laid.root_free
  cases o with
  | completes => simp [onwards_completes, leave_of_free free, lands, ends_none]
  | returns => simp [onwards_returns, ends_none]
  | throws => simp [onwards, resume, enclosing_of_free free, ends_none]
  | breaks => simp [onwards, resume, enclosing_of_free free]
  | continues => simp [onwards, resume, enclosing_of_free free]

theorem ends_root (laid : skeleton.Laid) (fit : skeleton.ArmsFit) (trace : List Nat) :
    skeleton.Ends (skeleton.arrive root 0) trace ↔ Traces (skeleton.codeOf root) trace := by
  have quiet : skeleton.raising root = false := raising_of_free laid.root_free
  rw [(faithful laid fit trace).block root 0, From, quiet, List.drop_zero]
  constructor
  · rintro ⟨front, o, back, rfl, run, goes⟩
    obtain ⟨whole, rfl⟩ := (onwards_root laid o).1 goes
    exact ⟨o, by rw [List.append_nil]; exact run, whole⟩
  · rintro ⟨o, run, whole⟩
    exact ⟨trace, o, [], by simp, run, (onwards_root laid o).2 ⟨whole, rfl⟩⟩

end Skeleton

namespace Control

/-- The labels of the ways from a statement out of the body. -/
def exitsOf (control : Control) (statement : Nat) : List Label :=
  control.exits[statement]?.getD []

/-- A sequence of statements is a complete path: it starts at the entry, each statement is a
successor of the one before, and from the last one control can leave the body. A body without an
entry has only the empty path. -/
def CompletePath (control : Control) (trace : List Nat) : Prop :=
  trace.head? = control.entry ∧
    trace.IsChain (fun here next => next ∈ control.successors here) ∧
    ∀ last ∈ trace.getLast?, control.exitsOf last ≠ []

instance (control : Control) (trace : List Nat) : Decidable (control.CompletePath trace) :=
  inferInstanceAs (Decidable (_ ∧ _ ∧ _))

section Steps

variable {skeleton : Skeleton} {s : Nat} {statement : Statement}

theorem mem_successors (stood : skeleton.statements[s]? = some statement) (next : Nat) :
    next ∈ (of skeleton).successors s ↔
      ∃ way ∈ skeleton.ways statement, Skeleton.lands way.1 = some next := by
  simp only [successors, transfersFrom, of, Array.getElem?_map, stood, Option.map_some,
    Option.getD_some, List.mem_map, List.mem_filterMap]
  constructor
  · rintro ⟨transfer, ⟨way, inside, made⟩, rfl⟩
    obtain ⟨landing, there, rfl⟩ := Option.map_eq_some_iff.1 made
    exact ⟨way, inside, by rw [there]; rfl⟩
  · rintro ⟨way, inside, there⟩
    obtain ⟨landing, here, rfl⟩ := Option.map_eq_some_iff.1 there
    exact ⟨_, ⟨way, inside, by rw [transfer?, here]; rfl⟩, rfl⟩

theorem exitsOf_ne_nil (stood : skeleton.statements[s]? = some statement) :
    (of skeleton).exitsOf s ≠ [] ↔ ∃ way ∈ skeleton.ways statement, Skeleton.lands way.1 = none := by
  have same : (of skeleton).exitsOf s = ((skeleton.ways statement).filterMap exit?).eraseDups := by
    simp only [exitsOf, of, Array.getElem?_map, stood, Option.map_some, Option.getD_some]
  rw [same]
  constructor
  · intro some
    obtain ⟨label, inside⟩ := List.exists_mem_of_ne_nil _ some
    obtain ⟨way, there, made⟩ := List.mem_filterMap.1 (List.mem_eraseDups.1 inside)
    refine ⟨way, there, ?_⟩
    cases out : way.1 with
    | none => rfl
    | some landing => simp [exit?, out] at made
  · rintro ⟨way, there, out⟩
    have nowhere : way.1 = none := Option.map_eq_none_iff.1 out
    refine List.ne_nil_of_mem (a := way.2.getD .exit) (List.mem_eraseDups.2 ?_)
    exact List.mem_filterMap.2 ⟨way, there, by rw [exit?, nowhere]⟩

theorem not_successor (missing : skeleton.statements[s]? = none) (next : Nat) :
    next ∉ (of skeleton).successors s := by
  simp [successors, transfersFrom, of, missing]

theorem exitsOf_missing (missing : skeleton.statements[s]? = none) :
    (of skeleton).exitsOf s = [] := by
  simp [exitsOf, of, missing]

/-- A walk along the ways goes over the transfers, and leaves by an exit. -/
theorem ends_iff_path (place : Option Nat) (trace : List Nat) :
    skeleton.Ends place trace ↔ trace.head? = place ∧
      trace.IsChain (fun here next => next ∈ (of skeleton).successors here) ∧
      ∀ last ∈ trace.getLast?, (of skeleton).exitsOf last ≠ [] := by
  induction trace generalizing place with
  | nil =>
    rw [Skeleton.ends_nil]
    constructor
    · rintro rfl
      exact ⟨rfl, .nil, by simp⟩
    · rintro ⟨start, -⟩
      exact start.symm
  | cons m rest ih =>
    cases place with
    | none => simp [Skeleton.ends_none]
    | some s =>
      cases stood : skeleton.statements[s]? with
      | none =>
        have stuck : ¬ skeleton.Ends (some s) (m :: rest) := by
          intro ends
          cases ends with
          | step held _ _ => rw [stood] at held; cases held
        refine iff_of_false stuck ?_
        rintro ⟨start, chain, leaves⟩
        obtain rfl : m = s := Option.some.inj start
        cases rest with
        | nil => exact leaves m rfl (exitsOf_missing stood)
        | cons n rest => exact not_successor stood n (List.isChain_cons_cons.1 chain).1
      | some statement =>
        rw [Skeleton.ends_step stood, List.head?_cons, Option.some.injEq]
        refine and_congr_right ?_
        rintro rfl
        cases rest with
        | nil =>
          have last : (∀ last ∈ [m].getLast?, (of skeleton).exitsOf last ≠ []) ↔
              (of skeleton).exitsOf m ≠ [] := by simp
          rw [last, exitsOf_ne_nil stood]
          simp only [Skeleton.Leads, List.isChain_singleton, true_and]
          exact exists_congr fun way => and_congr_right fun _ => Skeleton.ends_nil
        | cons n rest =>
          rw [List.isChain_cons_cons, List.getLast?_cons_cons, mem_successors stood]
          constructor
          · rintro ⟨way, inside, ends⟩
            obtain ⟨start, chain, leaves⟩ := (ih _).1 ends
            exact ⟨⟨⟨way, inside, start.symm⟩, chain⟩, leaves⟩
          · rintro ⟨⟨⟨way, inside, there⟩, chain⟩, leaves⟩
            exact ⟨way, inside, (ih _).2 ⟨there.symm, chain, leaves⟩⟩

end Steps

end Control

namespace Region

/-- The complete paths of the control flow graph of a region are the complete traces of its
structured code. -/
theorem Built.completePath_iff_traces {region : Region} (built : region.Built)
    (fit : region.skeleton.ArmsFit) (trace : List Nat) :
    (Control.of region.skeleton).CompletePath trace ↔
      Code.Traces (region.skeleton.codeOf Skeleton.root) trace := by
  have entry : (Control.of region.skeleton).entry = region.skeleton.arrive Skeleton.root 0 :=
    Skeleton.lands_enter region.skeleton Skeleton.root
  rw [← Skeleton.ends_root built.laid fit, Control.ends_iff_path, Control.CompletePath, entry]

/-- A guarded statement with a handler and a cleanup, around a loop with a switch in it: the first
case continues, the default case throws. -/
def retrying : Region :=
  let region : Region := (push { owner := none } 0 0 .guarded).1
  let region := (region.addArm 0 .guardedBody).1
  let region := (region.addArm 0 .handler).1
  let region := (region.addArm 0 .cleanup).1
  let region := (region.push 1 0 .loop).1
  let region := (region.addArm 1 .loopBody).1
  let region := (region.push 4 0 .switch).1
  let region := (region.addArm 2 (.case false)).1
  let region := (region.addArm 2 (.case true)).1
  let region := (region.push 5 0 .continues).1
  let region := (region.push 6 0 .throws).1
  let region := (region.push 2 0 .simple).1
  (region.push 3 0 .simple).1

theorem retrying_built : retrying.Built := by
  have guarded := (Built.start none #[]).push 0 0 .guarded (by decide)
  have body := guarded.addArm 0 .guardedBody (by decide)
  have handler := body.addArm 0 .handler (by decide)
  have cleanup := handler.addArm 0 .cleanup (by decide)
  have loop := cleanup.push 1 0 .loop (by decide)
  have inside := loop.addArm 1 .loopBody (by decide)
  have switch := inside.push 4 0 .switch (by decide)
  have first := switch.addArm 2 (.case false) (by decide)
  have second := first.addArm 2 (.case true) (by decide)
  have again := second.push 5 0 .continues (by decide)
  have raised := again.push 6 0 .throws (by decide)
  have handled := raised.push 2 0 .simple (by decide)
  exact handled.push 3 0 .simple (by decide)

theorem retrying_fits : retrying.skeleton.ArmsFit := by
  unfold Skeleton.ArmsFit
  decide

/-- One round of the loop, and then a throw through the handler and the cleanup. -/
theorem retrying_traces : retrying.Built ∧ retrying.skeleton.ArmsFit ∧
    Code.Traces (retrying.skeleton.codeOf Skeleton.root) [0, 1, 2, 3, 1, 2, 4, 5, 6] :=
  ⟨retrying_built, retrying_fits,
    (retrying_built.completePath_iff_traces retrying_fits _).1 (by decide +kernel)⟩

end Region

end CodeGraph

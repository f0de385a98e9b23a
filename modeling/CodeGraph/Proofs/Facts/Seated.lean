import CodeGraph.Proofs.Facts.Located

/-!
# Where accesses are

Every access of a region is recorded at a site inside the function that owns the region
(`Facts.Visits.seated`). In a file whose syntax nodes are apart this tells the function from the site
(`SourceFile.Apart.around_unique`).
-/

namespace CodeGraph

namespace Region

theorem allAccesses_push (region : Region) (block site : Nat) (kind : StatementKind) :
    (region.push block site kind).1.allAccesses = region.allAccesses := by
  simp [push, allAccesses]

end Region

namespace Facts

variable {file : SourceFile} {facts : Facts} {context : Context} {home : Home}

/-- The accesses of a region; none if there is no such region. -/
def accessesIn (facts : Facts) (number : Nat) : List Access :=
  (facts.regions[number]?.map Region.allAccesses).getD []

theorem mem_accessesIn {number : Nat} {access : Access} : access ∈ facts.accessesIn number ↔
    ∃ region, facts.regions[number]? = some region ∧ access ∈ region.allAccesses := by
  unfold accessesIn
  cases facts.regions[number]? <;> simp

theorem still_accessesIn : Still accessesIn where
  place := fun _ _ _ => rfl
  pushScope := fun _ _ _ => rfl
  pushStatement := by
    intro facts context site kind
    funext number
    rw [accessesIn, getElem?_pushStatement]
    split
    · rw [accessesIn, Option.map_map]
      have same : (Region.allAccesses ∘ fun region => (region.push context.block site kind).1) =
          Region.allAccesses := funext fun region => region.allAccesses_push _ _ _
      rw [same]
    · rfl
  pushArm := by
    intro facts context statement role
    funext number
    rw [accessesIn, getElem?_pushArm]
    split
    · rw [accessesIn, Option.map_map]
      rfl
    · rfl
  recordReturn := fun _ function _ => by cases function <;> rfl

/-- On the way from one to another, the facts have recorded accesses of one region only, at sites that are
among some yields. -/
structure Seats (before after : Facts) (region : Nat) (yields : List Yield) (function : Option String) :
    Prop where
  graph : before.graph.Kept after.graph
  accesses : ∀ (number : Nat) (access : Access), access ∈ after.accessesIn number →
    access ∈ before.accessesIn number ∨ number = region ∧ ∃ yield ∈ yields,
      after.graph.IdAt access.site yield.node.id ∧ function = yield.around

namespace Seats

variable {before middle after : Facts} {region : Nat} {yields : List Yield} {function : Option String}

theorem of_eq (graph : before.graph.Kept after.graph) (same : after.accessesIn = before.accessesIn) :
    Seats before after region yields function :=
  ⟨graph, fun number access there => .inl (by rw [← same]; exact there)⟩

theorem trans (first : Seats before middle region yields function)
    (second : Seats middle after region yields function) :
    Seats before after region yields function where
  graph := first.graph.trans second.graph
  accesses := by
    intro number access there
    rcases second.accesses number access there with old | new
    · refine (first.accesses number access old).imp id fun ⟨same, yield, inside, spot, around⟩ => ?_
      exact ⟨same, yield, inside, spot.kept second.graph, around⟩
    · exact .inr new

end Seats

/-- An access is recorded right below a node, at that node. -/
theorem seats_record (facts : Facts) {chart : List Yield} (stands : context.At chart facts home)
    {access : Access} (seat : context.parent = some access.site) :
    Seats facts (facts.record context access) context.region chart home.function := by
  refine ⟨(extends_record _ _ _).graph, fun number other there => ?_⟩
  obtain ⟨after, found, inside⟩ := mem_accessesIn.1 there
  rw [getElem?_record] at found
  split at found
  · next here =>
    obtain ⟨region, held, rfl⟩ := Option.map_eq_some_iff.1 found
    rcases Region.mem_allAccesses_record inside with old | rfl
    · exact .inl (mem_accessesIn.2 ⟨region, held, old⟩)
    · obtain ⟨id, given, spot⟩ := stands.below seat
      obtain ⟨yield, inside, rfl, -, around⟩ := stands.rooted.inner id given
      exact .inr ⟨here.symm, yield, inside, spot, around⟩
  · exact .inl (mem_accessesIn.2 ⟨after, found, inside⟩)

theorem accessesIn_addFunction (facts : Facts) (cursor : Cursor) (context : Context)
    (hint : Option Hint) (isMethod : Bool) :
    (facts.addFunction file cursor context hint isMethod).facts.accessesIn = facts.accessesIn := by
  rw [still_accessesIn.addFunction]
  funext number
  simp only [accessesIn, regions_enterFunction, Array.getElem?_push]
  split
  · next last => simp [last, Region.allAccesses]
  · rfl

section Members

variable {chart : List Yield} {begun : Facts} {adding : Adding} {yields : List Yield} {own : List Look}
  {functions : List Entry}

/-- The fields among the members of a class are recorded at the class. -/
theorem Gathers.seats_members (cursors : List Cursor)
    (gathers : Gathers file chart begun context home adding yields own functions)
    (within : ∀ cursor ∈ cursors, (Scheme.member file cursor home).puts file ⊆ chart) {node : Nat}
    (parent : context.parent = some node) (number : Nat) :
    Seats adding.facts (cursors.foldl (Adding.member file context number node) adding).facts
      context.region chart home.function := by
  refine Gathers.relate_members (fun before after _ _ =>
      Seats before.facts after.facts context.region chart home.function)
    (fun _ => .of_eq (.refl _) rfl) (fun first second => first.trans second)
    (fun {adding} _ _ _ _ cursor hint => ?_) (fun {adding} _ _ _ gathers name value => ?_) cursors
    gathers within parent
  · exact .of_eq (extends_addFunction adding.facts file cursor context hint true).graph
      (accessesIn_addFunction adding.facts cursor context hint true)
  · have grown := extends_place adding.facts (fieldNode file name) (some node)
    have placed : Seats adding.facts
        { (adding.facts.place (fieldNode file name) (some node)).1 with
          regionOf := (adding.facts.place (fieldNode file name) (some node)).1.regionOf.insert
            (adding.facts.place (fieldNode file name) (some node)).2 context.region }
        context.region chart home.function := .of_eq grown.graph rfl
    exact placed.trans (seats_record _
      (gathers.on.stands.later (grown.trans (extends_declareIn _ _ _))) parent)

end Members

/-- The fields of a class are recorded at the class. -/
theorem seats_addClass {chart : List Yield} (on : On file chart facts 0 facts context home)
    {cursor : Cursor} {hint : Option Hint}
    (within : (Scheme.classLike file cursor home hint).puts file ⊆ chart) :
    Seats facts (facts.addClass file cursor context hint).1 context.region chart
      home.function := by
  let node := classNode file cursor (givenName file cursor hint)
  have opening := on.openClass within
  have members := fun plain : cursor.kind ≠ "enum_declaration" => subset_of_members plain within
  have opened : Seats facts
      { (facts.place node context.parent).1 with
        classes := facts.classes.push { name := givenName file cursor hint } }
      context.region chart home.function := .of_eq (extends_place _ _ _).graph rfl
  unfold addClass
  by_cases enumeration : cursor.kind = "enum_declaration"
  · simp only [if_pos enumeration]
    exact opened
  · simp only [if_neg enumeration]
    have start := opening.gathers (List.forall_mem_nil _)
    exact opened.trans (start.seats_members _ (members enumeration) rfl _)

/-! ## Steps -/

section Steps

variable {chart : List Yield} (on : On file chart facts 0 facts context home) {cursor : Cursor}
include on

theorem seats_statement (within : (Scheme.statement file cursor home).puts file ⊆ chart) :
    Seats facts (facts.statement file cursor context).1 context.region chart home.function := by
  have grown := (plays_statement on within).extend.graph
  cases form : StatementForm.ofKind cursor.kind with
  | function =>
    refine .of_eq grown ?_
    simp only [statement, form, accessesIn_addFunction]
  | classLike =>
    simp only [Scheme.statement, form] at within
    simp only [statement, form]
    exact seats_addClass on within
  | _ => exact .of_eq grown (still_accessesIn.statement file facts cursor context (by simp [form]))

/-- A name that is bound at a site is written there. -/
theorem seats_bind {mode : BindMode}
    (seat : ∀ site, mode.site? = some site → context.parent = some site) :
    Seats facts (facts.bind file cursor context mode).1 context.region chart home.function := by
  unfold bind
  split
  swap
  · exact .of_eq (.refl _) rfl
  cases mode with
  | assign site => exact seats_record facts on.stands (seat site rfl)
  | declare word site =>
    let placed := facts.place (variableNode file cursor word) context.parent
    let scope := if word = "var" then placed.1.scopes.hoistTarget context.scope else context.scope
    let declared : Facts := { placed.1 with
      scopes := placed.1.scopes.declareVariable scope (file.textOf cursor) placed.2
      regionOf := placed.1.regionOf.insert placed.2 context.region }
    have extend : facts.Extends declared :=
      ((extends_place facts (variableNode file cursor word) context.parent).trans
        (extends_declareVariable _ scope (file.textOf cursor) placed.2)).trans
          (extends_declareIn _ _ _)
    have first : Seats facts declared context.region chart home.function := .of_eq extend.graph rfl
    exact first.trans (seats_record declared (on.stands.later extend) (seat site rfl))
  | param position rest optional hasDefault =>
    refine .of_eq (extends_place facts (paramNode file cursor position rest optional hasDefault)
      context.parent).graph ?_
    funext number
    simp only [bindName, declareParam, accessesIn, Array.getElem?_modify]
    split
    · rw [Option.map_map]
      rfl
    · rfl

theorem seats_expression {hint : Option Hint}
    (seat : ∀ site, context.site = some site → context.parent = some site)
    (within : (Scheme.expression file cursor home hint).puts file ⊆ chart) :
    Seats facts (facts.expression file cursor context hint).1 context.region chart home.function := by
  have grown := (plays_expression on within).extend.graph
  cases form : ExpressionForm.ofKind cursor.kind with
  | reference =>
    simp only [expression, form, addReference]
    split
    · next site given => exact seats_record facts on.stands (seat site given)
    · exact .of_eq (.refl _) rfl
  | function =>
    refine .of_eq grown ?_
    simp only [expression, form, accessesIn_addFunction]
  | method =>
    refine .of_eq grown ?_
    simp only [expression, form, accessesIn_addFunction]
  | classLike =>
    simp only [Scheme.expression, form] at within
    simp only [expression, form]
    exact seats_addClass on within
  | call =>
    refine .of_eq grown ?_
    simp only [expression, form]
    rfl
  | _ =>
    exact .of_eq grown (still_accessesIn.expression file facts cursor context hint (by simp [form]))

end Steps

variable {task : Task} {rest : List Task} {sight : Sight} {ahead : List Sight}

/-- A step records accesses of its region only, at sites inside the function around. -/
theorem Charted.seats (charted : Charted file facts (task :: rest) (sight :: ahead))
    (known : task.Known facts) :
    Seats facts (facts.step file task).1 task.context.region file.yields
      sight.look.home.function := by
  have within := charted.puts_subset
  have grown := charted.plays.extend.graph
  have on := charted.on
  rw [← charted.head.same] at within
  generalize sight.look.home = home at within on ⊢
  cases task with
  | statement cursor context => exact seats_statement on within
  | loopHeader cursor context => exact .of_eq grown (still_accessesIn.addLoopHeader file facts _ _)
  | bind cursor context mode => exact seats_bind on fun site given => (known.binds site given).2
  | expression cursor context hint => exact seats_expression on known.context.seat within

/-- Every access of a region is at a site inside the function that owns the region. -/
def Seated (file : SourceFile) (facts : Facts) : Prop :=
  ∀ (number : Nat) (access : Access), access ∈ facts.accessesIn number →
    ∃ yield ∈ file.yields, facts.graph.IdAt access.site yield.node.id ∧
      ∃ owner, facts.owners[number]? = some owner ∧
        Option.Rel facts.graph.IdAt owner yield.around

theorem seated_start (file : SourceFile) : Seated file {} := by
  intro number access there
  obtain ⟨region, found, inside⟩ := mem_accessesIn.1 there
  cases number with
  | zero =>
    obtain rfl := Option.some.inj found
    cases inside
  | succ number => simp at found

theorem Seated.step (seated : Seated file facts)
    (charted : Charted file facts (task :: rest) (sight :: ahead)) (known : task.Known facts) :
    Seated file (facts.step file task).1 := by
  have extend := charted.plays.extend
  have seats := charted.seats known
  intro number access there
  rcases seats.accesses number access there with old | ⟨rfl, yield, inside, spot, around⟩
  · obtain ⟨yield, inside, spot, owner, owned, around⟩ := seated number access old
    exact ⟨yield, inside, spot.kept extend.graph, owner, owners_later extend owned,
      rel_imp (fun _ _ at_ => at_.kept extend.graph) around⟩
  · obtain ⟨owner, owned, same⟩ := charted.head.context.owner
    exact ⟨yield, inside, spot, owner, owners_later extend owned,
      around ▸ rel_imp (fun _ _ at_ => at_.kept extend.graph) same⟩

theorem Visits.seated {pending : List Task} (visits : Visits file facts pending) :
    Seated file facts := by
  obtain ⟨_, -, seated⟩ := visits.follow (P := fun facts _ _ => Seated file facts)
    (seated_start file) fun visits charted seated =>
      seated.step charted (visits.sound.2 _ List.mem_cons_self).1
  exact seated

/-- Looking up the names moves no access. -/
theorem seated_of (file : SourceFile) : Seated file (Facts.of file) := by
  have last := Visits.last file
  intro number access there
  obtain ⟨region, found, inside⟩ := mem_accessesIn.1 there
  rw [last.of_eq] at found ⊢
  simp only [resolveNames, Array.getElem?_map] at found
  obtain ⟨before, held, rfl⟩ := Option.map_eq_some_iff.1 found
  obtain ⟨other, stood, known⟩ := Region.mem_allAccesses_resolve inside
  obtain ⟨yield, listed, spot, owner⟩ :=
    last.seated number other (mem_accessesIn.2 ⟨before, held, stood⟩)
  have same : access.site = other.site := by
    unfold Access.resolve at known
    split at known
    · rw [Option.some.inj known]
    · obtain ⟨handle, -, rfl⟩ := Option.map_eq_some_iff.1 known
      rfl
  exact ⟨yield, listed, same ▸ spot, owner⟩

end Facts

end CodeGraph

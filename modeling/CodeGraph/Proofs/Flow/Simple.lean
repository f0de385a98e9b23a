import CodeGraph.Proofs.Facts.FileEdges
import CodeGraph.Proofs.Facts.Recited
import CodeGraph.Proofs.Facts.Twice

/-!
# Data flow in simple bodies

A simple body comes to what its script mentions, in the order of the script. So a definition flows to a read
of a name just if it is the last write before the read there, of what the name stands for
(`SourceFile.Apart.flows_iff`).
-/

namespace CodeGraph

/-! ## Reads and writes among mentions -/

namespace Mention

/-- Whether a mention writes what a name stands for: under the name, or as a variable with one of some ids. -/
def writes (name : String) (ids : List String) (mention : Mention) : Bool :=
  mention.kind == .write && match mention.subject with
    | .name text => text == name
    | .node id => ids.contains id

theorem writes_iff {name : String} {ids : List String} {mention : Mention} :
    mention.writes name ids = true ↔ mention.kind = .write ∧
      (mention.subject = .name name ∨ ∃ id ∈ ids, mention.subject = .node id) := by
  rw [writes]
  cases mention.subject <;> simp

/-- The last write among mentions. -/
def lastWrite? (name : String) (ids : List String) : List Mention → Option Mention
  | [] => none
  | mention :: rest =>
    (lastWrite? name ids rest).or (if mention.writes name ids then some mention else none)

/-- The read of a name at a site. -/
def read (name site : String) : Mention := { kind := .read, subject := .name name, site := some site }

/-- A name is read at a site right behind some of the mentions of a list. -/
def ReadAfter (name site : String) (before mentions : List Mention) : Prop :=
  ∃ after, mentions = before ++ read name site :: after

/-- A mention is at the node of a handle. -/
def At (graph : Graph) (mention : Mention) (handle : Nat) : Prop :=
  ∃ id, mention.site = some id ∧ graph.IdAt handle id

variable {name : String} {ids : List String}

theorem lastWrite?_append (mentions others : List Mention) : lastWrite? name ids (mentions ++ others) =
    (lastWrite? name ids others).or (lastWrite? name ids mentions) := by
  induction mentions with
  | nil => rw [List.nil_append, lastWrite?, Option.or_none]
  | cons mention rest ih => rw [List.cons_append, lastWrite?, ih, lastWrite?, Option.or_assoc]

theorem lastWrite?_eq_none_iff {mentions : List Mention} :
    lastWrite? name ids mentions = none ↔ ∀ mention ∈ mentions, mention.writes name ids = false := by
  induction mentions with
  | nil => simp [lastWrite?]
  | cons mention rest ih => simp [lastWrite?, ih, and_comm]

end Mention

/-- All reads are of names. -/
theorem Look.subject_of_read {file : SourceFile} {look : Look} {mention : Mention}
    (inside : mention ∈ look.mentions file) (reads : mention.kind = .read) :
    ∃ text, mention.subject = .name text := by
  have fields : ∀ yields, mention ∉ Mention.fields yields := by
    intro yields there
    obtain ⟨yield, -, rfl⟩ := List.mem_map.1 there
    cases reads
  rw [mentions, gather_eq, List.mem_append] at inside
  rcases inside with here | follows
  · cases look with
    | statement cursor home =>
      rw [mentioned] at here
      split at here
      · exact absurd here (fields _)
      · cases here
    | loopHeader cursor home => cases here
    | bind cursor home mode =>
      have writes : mention.kind = .write := by
        cases mode <;> simp only [mentioned] at here <;> split at here <;> simp_all
      cases reads.symm.trans writes
    | expression cursor home hint =>
      rw [mentioned] at here
      split at here
      · exact ⟨_, congrArg Mention.subject (List.mem_singleton.1 here)⟩
      · exact absurd here (fields _)
      · cases here
  · obtain ⟨next, listed, there⟩ := List.mem_flatMap.1 follows
    have lighter := weight_lt_of_mem_inside listed
    exact subject_of_read there reads
termination_by look.weight

theorem Script.subject_of_read {file : SourceFile} {looks : List Look} {mention : Mention}
    (inside : mention ∈ (Script.of file looks).mentions) (reads : mention.kind = .read) :
    ∃ text, mention.subject = .name text := by
  rcases List.mem_append.1 inside with entry | statement
  · obtain ⟨look, -, there⟩ := List.mem_flatMap.1 entry
    exact Look.subject_of_read there reads
  · obtain ⟨list, listed, there⟩ := List.mem_flatten.1 statement
    obtain ⟨look, -, rfl⟩ := List.mem_map.1 listed
    exact Look.subject_of_read there reads

/-! ## What accesses show when names are looked up -/

namespace Region

theorem allAccesses_resolve (region : Region) (scopes : Scopes) :
    (region.resolve scopes).allAccesses = region.allAccesses.filterMap (Access.resolve scopes) := by
  simp [allAccesses, resolve, List.filterMap_append, List.flatMap_def, List.filterMap_flatten,
    Function.comp_def]

/-- A region shows all that the script mentions, in order. -/
theorem Recites.all {region : Region} {graph : Graph} {scope : Nat} {script : Script}
    (recites : region.Recites graph scope script) :
    AllShow graph scope script.mentions region.allAccesses := by
  refine List.rel_append recites.entry ?_
  rw [List.flatMap_def]
  refine List.rel_flatten ?_
  rw [List.forall₂_map_right_iff]
  exact recites.statements

end Region

/-- What two lists of accesses show are two lists of mentions. -/
theorem AllShow.split {graph : Graph} {scope : Nat} {mentions : List Mention} {left right : List Access}
    (all : AllShow graph scope mentions (left ++ right)) : ∃ first second, mentions = first ++ second ∧
      AllShow graph scope first left ∧ AllShow graph scope second right :=
  ⟨_, _, (List.take_append_drop left.length mentions).symm, List.forall₂_take_append _ _ _ all,
    List.forall₂_drop_append _ _ _ all⟩

theorem AllShow.split_mentions {graph : Graph} {scope : Nat} {first second : List Mention}
    {accesses : List Access} (all : AllShow graph scope (first ++ second) accesses) :
    ∃ left right, accesses = left ++ right ∧ AllShow graph scope first left ∧
      AllShow graph scope second right :=
  ⟨_, _, (List.take_append_drop first.length accesses).symm,
    (List.forall₂_take_append _ _ _ all.flip).flip, (List.forall₂_drop_append _ _ _ all.flip).flip⟩

/-- An access whose name was looked up. -/
theorem Access.of_resolve {scopes : Scopes} {access after : Access}
    (known : access.resolve scopes = some after) :
    after.kind = access.kind ∧ after.site = access.site := by
  unfold Access.resolve at known
  split at known
  · rw [Option.some.inj known]
    exact ⟨rfl, rfl⟩
  · obtain ⟨handle, -, rfl⟩ := Option.map_eq_some_iff.1 known
    exact ⟨rfl, rfl⟩

namespace Mention

variable {graph : Graph} {scopes : Scopes} {scope handle : Nat} {name id : String}
  (formed : graph.WellFormed) (node : graph.IdAt handle id)
  (known : scopes.resolveVariable scope name = some handle)
  (alone : ∀ other, scopes.resolveVariable scope other = some handle → other = name)
include formed node known alone

/-- An access turns out to be of a variable just if it is of its name or of its node. -/
theorem Shows.about_iff {mention : Mention} {access : Access} (shows : mention.Shows graph scope access) :
    (access.resolve scopes).bind Access.handle? = some handle ↔
      mention.subject = .name name ∨ mention.subject = .node id := by
  obtain ⟨-, subject, -⟩ := shows
  unfold Access.resolve
  generalize mention.subject = told at subject ⊢
  cases binding : access.binding with
  | node other =>
    rw [binding] at subject
    obtain _ | spot := subject
    simp only [Option.bind_some, Access.handle?, binding, Option.some.injEq, Subject.node.injEq, reduceCtorEq,
      false_or]
    exact ⟨fun same => spot.unique (same ▸ node), fun same => formed.idAt_unique (same ▸ spot) node⟩
  | name text from_ =>
    rw [binding] at subject
    cases subject
    simp only [Subject.name.injEq, reduceCtorEq, or_false]
    rw [Option.bind_map]
    constructor
    · intro found
      obtain ⟨other, looked, same⟩ := Option.bind_eq_some_iff.1 found
      exact alone text (looked.trans same)
    · rintro rfl
      rw [known]
      rfl

/-- An access turns out to write a variable just if the mention writes what its name stands for. -/
theorem Shows.defined_iff {mention : Mention} {access : Access}
    (shows : mention.Shows graph scope access) :
    (access.resolve scopes).bind Access.defined? = some handle ↔ mention.writes name [id] = true := by
  have kinds : (access.resolve scopes).bind Access.defined? =
      if mention.kind = .write then (access.resolve scopes).bind Access.handle? else none := by
    cases looked : access.resolve scopes with
    | none => simp
    | some after =>
      have kind := (Access.of_resolve looked).1.trans shows.kind
      rw [Option.bind_some, Option.bind_some, Access.defined?, kind]
      cases mention.kind <;> rfl
  rw [kinds, writes_iff]
  have about := shows.about_iff formed node known alone
  by_cases write : mention.kind = .write
  · simpa [write] using about
  · simp [write]

/-- An access turns out to read a variable just if the mention reads its name. -/
theorem Shows.used_iff {mention : Mention} {access : Access} (shows : mention.Shows graph scope access)
    (named : mention.kind = .read → ∃ text, mention.subject = .name text) :
    (access.resolve scopes).bind Access.used? = some handle ↔
      mention.kind = .read ∧ mention.subject = .name name := by
  have kinds : (access.resolve scopes).bind Access.used? =
      if mention.kind = .read then (access.resolve scopes).bind Access.handle? else none := by
    cases looked : access.resolve scopes with
    | none => simp
    | some after =>
      have kind := (Access.of_resolve looked).1.trans shows.kind
      rw [Option.bind_some, Option.bind_some, Access.used?, kind]
      cases mention.kind <;> rfl
  rw [kinds]
  have about := shows.about_iff formed node known alone
  by_cases read : mention.kind = .read
  · obtain ⟨text, same⟩ := named read
    simpa [read, same] using about
  · simp [read]

/-- The last write of a variable among accesses is at the node of the last one among mentions. -/
theorem rel_lastWrite? {mentions : List Mention} {accesses : List Access}
    (all : AllShow graph scope mentions accesses) :
    Option.Rel (fun mention site => mention.At graph site) (lastWrite? name [id] mentions)
      (CodeGraph.lastWrite? (accesses.filterMap (Access.resolve scopes)) handle) := by
  induction all with
  | nil => exact .none
  | @cons mention access mentions accesses shows rest ih =>
    have defined := shows.defined_iff formed node known alone
    rw [List.filterMap_cons, lastWrite?]
    cases looked : access.resolve scopes with
    | none =>
      rw [looked, Option.bind_none] at defined
      have none_ : (if mention.writes name [id] = true then some mention else none) = none :=
        if_neg fun written => nomatch defined.2 written
      simpa only [none_, Option.or_none] using ih
    | some after =>
      rw [looked, Option.bind_some] at defined
      refine Facts.rel_or ih ?_
      by_cases written : mention.writes name [id] = true
      · rw [if_pos written, if_pos (defined.2 written), (Access.of_resolve looked).2]
        exact .some shows.site
      · rw [if_neg written, if_neg fun same => written (defined.1 same)]
        exact .none

/-- What reads a variable among accesses whose names were looked up shows a read of its name. -/
theorem exists_readAfter {mentions : List Mention} {accesses : List Access}
    (all : AllShow graph scope mentions accesses)
    (named : ∀ mention ∈ mentions, mention.kind = .read → ∃ text, mention.subject = .name text)
    {before after : List Access} {access : Access}
    (split : accesses.filterMap (Access.resolve scopes) = before ++ access :: after)
    (reads : access.used? = some handle) {site : String} (spot : graph.IdAt access.site site) :
    ∃ front, ReadAfter name site front mentions ∧
      Option.Rel (fun mention site => mention.At graph site) (lastWrite? name [id] front)
        (CodeGraph.lastWrite? before handle) := by
  obtain ⟨left, right, rfl, rfl, rest⟩ := List.filterMap_eq_append_iff.1 split
  obtain ⟨gone, raw, later, rfl, none_, looked, -⟩ := List.filterMap_eq_cons_iff.1 rest
  obtain ⟨front, others, rfl, first, second⟩ := all.split
  obtain ⟨skipped, others, rfl, third, fourth⟩ := AllShow.split second
  obtain ⟨mention, back, shows, -, rfl⟩ := List.forall₂_cons_right_iff.1 fourth
  have used := shows.used_iff formed node known alone (named mention (by simp))
  rw [looked, Option.bind_some] at used
  obtain ⟨kind, subject⟩ := used.1 reads
  obtain ⟨id', site', spot'⟩ := shows.site
  rw [(Access.of_resolve looked).2] at spot
  obtain rfl := spot.unique spot'
  refine ⟨front ++ skipped, ⟨back, ?_⟩, ?_⟩
  · rw [read, ← kind, ← subject, ← site', List.append_assoc]
  · have last := rel_lastWrite? formed node known alone (List.rel_append first third)
    rwa [List.filterMap_append, List.filterMap_eq_nil_iff.2 none_, List.append_nil] at last

/-- A read of a name shows as a read of the variable that it stands for. -/
theorem exists_used {mentions : List Mention} {accesses : List Access}
    (all : AllShow graph scope mentions accesses) {front : List Mention} {site : String}
    (behind : ReadAfter name site front mentions) : ∃ before access,
      (∃ after, accesses.filterMap (Access.resolve scopes) = before ++ access :: after) ∧
        access.used? = some handle ∧ graph.IdAt access.site site ∧
        Option.Rel (fun mention site => mention.At graph site) (lastWrite? name [id] front)
          (CodeGraph.lastWrite? before handle) := by
  obtain ⟨back, rfl⟩ := behind
  obtain ⟨left, right, rfl, first, second⟩ := all.split_mentions
  obtain ⟨raw, later, shows, -, rfl⟩ := List.forall₂_cons_left_iff.1 second
  have used := (shows.used_iff formed node known alone fun _ => ⟨name, rfl⟩).2 ⟨rfl, rfl⟩
  obtain ⟨access, looked, reads⟩ := Option.bind_eq_some_iff.1 used
  obtain ⟨id', site', spot⟩ := shows.site
  obtain rfl := Option.some.inj site'
  refine ⟨_, access, ⟨later.filterMap (Access.resolve scopes), ?_⟩, reads, ?_,
    rel_lastWrite? formed node known alone first⟩
  · rw [List.filterMap_append, List.filterMap_cons, looked]
  · rwa [(Access.of_resolve looked).2]

end Mention

/-! ## Flow in a region -/

namespace Facts

variable {file : SourceFile} {facts last : Facts} {number handle source target scope : Nat}
  {body : Option Entry} {name id site : String}

/-- A definition of a variable that is made at one site reaches a read at another one, in a region. -/
def FlowsIn (facts : Facts) (number handle source target : Nat) : Prop :=
  ∃ region place earlier access, facts.regions[number]? = some region ∧
    DataFlow.Stands region place earlier access ∧ access.used? = some handle ∧ access.site = target ∧
    DataFlow.Reaches facts.region? facts.regions.toList number region place earlier ⟨handle, source⟩

/-- A definition of a variable that is made at a site is live at the entry of a region. -/
def Incoming (facts : Facts) (number handle source : Nat) : Prop :=
  ∃ region, facts.regions[number]? = some region ∧
    DataFlow.LiveAtEntry facts.region? facts.regions.toList number region ⟨handle, source⟩

theorem flows_iff {tag : Option String} : facts.Flows source target tag ↔ source ≠ target ∧
    ∃ number handle, tag = some (facts.graph.nameOf handle) ∧ facts.FlowsIn number handle source target := by
  constructor
  · rintro ⟨number, region, place, earlier, access, found, stands, handle, reads, same, apart, named, reaches⟩
    exact ⟨apart, number, handle, named, region, place, earlier, access, found, stands, reads, same, reaches⟩
  · rintro ⟨apart, number, handle, named, region, place, earlier, access, found, stands, reads, same, reaches⟩
    exact ⟨number, region, place, earlier, access, found, stands, handle, reads, same, apart, named, reaches⟩

/-- What is live after accesses whose last write is that of some mentions: the last write among these, or, if
there is none, what is live at the entry. -/
theorem liveAfter_iff {region : Region} (found : facts.regions[number]? = some region)
    (formed : facts.graph.WellFormed) {front : List Mention} {before : List Access}
    (last : Option.Rel (fun mention site => mention.At facts.graph site)
      (Mention.lastWrite? name [id] front) (lastWrite? before handle)) :
    LiveAfter (DataFlow.LiveAtEntry facts.region? facts.regions.toList number region) before
        ⟨handle, source⟩ ↔
      ((∃ write, Mention.lastWrite? name [id] front = some write ∧ write.At facts.graph source) ∨
        Mention.lastWrite? name [id] front = none ∧ facts.Incoming number handle source) := by
  rw [LiveAfter]
  generalize Mention.lastWrite? name [id] front = write at last ⊢
  generalize lastWrite? before handle = site at last ⊢
  cases last with
  | none =>
    simp only [reduceCtorEq, false_and, exists_false, true_and, false_or]
    constructor
    · exact fun entry => ⟨_, found, entry⟩
    · rintro ⟨other, held, entry⟩
      obtain rfl := Option.some.inj (found.symm.trans held)
      exact entry
  | @some write from_ there =>
    simp only [Option.some.injEq, reduceCtorEq, false_and, or_false, exists_eq_left']
    refine ⟨fun same => same ▸ there, fun also => ?_⟩
    obtain ⟨id, here, spot⟩ := there
    obtain ⟨id', here', spot'⟩ := also
    obtain rfl := Option.some.inj (here.symm.trans here')
    exact formed.idAt_unique spot spot'

/-- In a simple body a definition flows to a read of a name just if it is the last write before the read, of
what the name stands for, or if there is none and it is live at the entry. -/
theorem Recitation.flowsIn_iff (recitation : Recitation file last number body scope)
    (same : facts = last.resolveNames) (formed : facts.graph.WellFormed) (node : facts.graph.IdAt handle id)
    (known : facts.scopes.resolveVariable scope name = some handle)
    (alone : ∀ other, facts.scopes.resolveVariable scope other = some handle → other = name)
    (spot : facts.graph.IdAt target site) :
    facts.FlowsIn number handle source target ↔
      ∃ before, Mention.ReadAfter name site before (Script.of file (file.looksIn body)).mentions ∧
        ((∃ write, Mention.lastWrite? name [id] before = some write ∧ write.At facts.graph source) ∨
          Mention.lastWrite? name [id] before = none ∧ facts.Incoming number handle source) := by
  subst same
  obtain ⟨raw, found, recites⟩ := recitation.recites
  obtain ⟨sites, straight, sized⟩ := recites.straight
  have stood : last.resolveNames.regions[number]? = some (raw.resolve last.scopes) := by
    rw [resolveNames, Array.getElem?_map, found, Option.map_some]
  have sized' : sites.length = (raw.resolve last.scopes).accesses.size := by
    rw [Region.resolve, Array.size_map, sized]
  have reaches := fun access => @Region.exists_reaches_iff_of_straight (raw.resolve last.scopes) sites straight
    sized' last.resolveNames.region? last.resolveNames.regions.toList number access ⟨handle, source⟩
  have all := recites.all
  have named : ∀ mention ∈ (Script.of file (file.looksIn body)).mentions, mention.kind = .read →
      ∃ text, mention.subject = .name text := fun _ inside reads => Script.subject_of_read inside reads
  constructor
  · rintro ⟨region, place, earlier, access, held, stands, reads, rfl, reached⟩
    obtain rfl := Option.some.inj (stood.symm.trans held)
    obtain ⟨before, ⟨after, split⟩, left⟩ := (reaches access).1 ⟨place, earlier, stands, reached⟩
    rw [Region.allAccesses_resolve] at split
    obtain ⟨front, behind, last_⟩ :=
      Mention.exists_readAfter formed node known alone all named split reads spot
    exact ⟨front, behind, (liveAfter_iff stood formed last_).1 left⟩
  · rintro ⟨front, behind, left⟩
    obtain ⟨before, access, whole, reads, spot', last_⟩ :=
      Mention.exists_used formed node known alone all behind
    rw [← Region.allAccesses_resolve] at whole
    obtain ⟨place, earlier, stands, reached⟩ :=
      (reaches access).2 ⟨before, whole, (liveAfter_iff stood formed last_).2 left⟩
    exact ⟨_, place, earlier, access, stood, stands, reads, formed.idAt_unique spot' spot, reached⟩

/-- A read of a name that stands for a variable shows in the region of a simple body. -/
theorem Recitation.exists_access (recitation : Recitation file last number body scope)
    (same : facts = last.resolveNames) (formed : facts.graph.WellFormed) (node : facts.graph.IdAt handle id)
    (known : facts.scopes.resolveVariable scope name = some handle)
    (alone : ∀ other, facts.scopes.resolveVariable scope other = some handle → other = name)
    (spot : facts.graph.IdAt target site) {before : List Mention}
    (behind : Mention.ReadAfter name site before (Script.of file (file.looksIn body)).mentions) :
    ∃ access ∈ facts.accessesIn number, access.site = target := by
  subst same
  obtain ⟨raw, found, recites⟩ := recitation.recites
  obtain ⟨earlier, access, ⟨after, split⟩, -, spot', -⟩ :=
    Mention.exists_used formed node known alone recites.all behind
  refine ⟨access, mem_accessesIn.2 ⟨raw.resolve last.scopes, ?_, ?_⟩, formed.idAt_unique spot' spot⟩
  · rw [resolveNames, Array.getElem?_map, found, Option.map_some]
  · rw [Region.allAccesses_resolve]
    change access ∈ raw.allAccesses.filterMap (Access.resolve last.resolveNames.scopes)
    rw [split]
    simp

/-- A variable that is read in a simple body is what a name stands for there. -/
theorem Recitation.known_of_flowsIn (recitation : Recitation file last number body scope)
    (same : facts = last.resolveNames) (flows : facts.FlowsIn number handle source target) :
    ∃ text, facts.scopes.resolveVariable scope text = some handle := by
  subst same
  obtain ⟨raw, found, recites⟩ := recitation.recites
  obtain ⟨region, place, earlier, access, held, ⟨later, split⟩, reads, -⟩ := flows
  rw [resolveNames, Array.getElem?_map, found, Option.map_some] at held
  obtain rfl := Option.some.inj held
  have inside : access ∈ (raw.resolve last.scopes).allAccesses :=
    Region.mem_allAccesses.2 ⟨place, by rw [split]; simp⟩
  obtain ⟨before, there, looked⟩ := Region.mem_allAccesses_resolve inside
  obtain ⟨front, back, whole⟩ := List.append_of_mem there
  obtain ⟨first, second, mentioned, -, rest⟩ := AllShow.split (whole ▸ recites.all)
  obtain ⟨mention, others, shows, -, rfl⟩ := List.forall₂_cons_right_iff.1 rest
  have listed : mention ∈ (Script.of file (file.looksIn body)).mentions := by
    rw [mentioned]
    simp
  have kind : mention.kind = .read := by
    rw [← shows.kind, ← (Access.of_resolve looked).1]
    unfold Access.used? at reads
    split at reads
    · assumption
    · cases reads
  obtain ⟨text, subject⟩ := Script.subject_of_read listed kind
  have binding := shows.subject
  rw [subject] at binding
  generalize held : before.binding = bound at binding
  cases binding
  rw [Access.resolve, held] at looked
  obtain ⟨other, known, rfl⟩ := Option.map_eq_some_iff.1 looked
  exact ⟨text, known.trans (handle?_of_used? reads)⟩

/-! ## Bodies and their regions -/

/-- A name stands for the variable with an id, wherever it is looked up in a body. -/
def StandsFor (file : SourceFile) (facts : Facts) (body : Option Entry) (name id : String) : Prop :=
  ∀ number scope, facts.IsBody file number body → facts.scopes.bodies[number]? = some scope →
    ∃ handle, facts.scopes.resolveVariable scope name = some handle ∧ facts.graph.IdAt handle id

/-- A definition of the variable with an id is live at the entry of a body. -/
def EntersBody (file : SourceFile) (facts : Facts) (body : Option Entry) (id : String) (source : Nat) : Prop :=
  ∃ number handle, facts.IsBody file number body ∧ facts.graph.IdAt handle id ∧
    facts.Incoming number handle source

/-- Functions that are entered are told by their ids. -/
theorem entered_unique {yields : List Yield} (told : Told yields) {entry other : Entry}
    (entered : Look.Entered yields entry) (also : Look.Entered yields other)
    (ids : entry.node.id = other.node.id) : entry = other := by
  obtain ⟨-, yield, inside, cursor, node⟩ := entered
  obtain ⟨-, yield', inside', cursor', node'⟩ := also
  obtain rfl := told yield inside yield' inside' (by rw [node, node', ids])
  cases entry
  cases other
  simp only at cursor node cursor' node'
  rw [← cursor, ← node, ← cursor', ← node']

/-- A region is that of one body. -/
theorem IsBody.unique (told : Told file.yields) {other : Option Entry} (isBody : facts.IsBody file number body)
    (also : facts.IsBody file number other) : body = other := by
  cases body with
  | none =>
    cases other with
    | none => rfl
    | some entry =>
      obtain ⟨-, function, same, -⟩ := also
      cases isBody.symm.trans same
  | some entry =>
    obtain ⟨entered, function, rfl, signature, listed, spot⟩ := isBody
    cases other with
    | none => cases also
    | some entry' =>
      obtain ⟨entered', function', same, signature', listed', spot'⟩ := also
      obtain rfl := Nat.succ.inj same
      obtain rfl := Option.some.inj (listed.symm.trans listed')
      rw [entered_unique told entered entered' (spot.unique spot')]

/-- What is around the accesses of the region of a body. -/
theorem IsBody.around (isBody : facts.IsBody file number body) {owner : Option Nat} {function : Option String}
    (owned : facts.owners[number]? = some owner) (same : Option.Rel facts.graph.IdAt owner function) :
    function = body.map fun entry => entry.node.id := by
  cases body with
  | none =>
    obtain rfl : number = 0 := isBody
    obtain rfl := Option.some.inj owned
    cases same
    rfl
  | some entry =>
    obtain ⟨-, place, rfl, signature, listed, spot⟩ := isBody
    rw [owners, List.getElem?_cons_succ, List.getElem?_map, listed] at owned
    obtain rfl := Option.some.inj owned
    cases same with
    | some there => rw [← spot.unique there, Option.map_some]

end Facts

namespace SourceFile

/-- The body of the module, or of a function. -/
def HasBody (file : SourceFile) : Option Entry → Prop
  | none => True
  | some entry => Look.Entered file.yields entry

/-- What is mentioned in a body, in the order in which it happens. -/
def mentionsIn (file : SourceFile) (body : Option Entry) : List Mention :=
  (Script.of file (file.looksIn body)).mentions

end SourceFile

namespace Facts

variable {file : SourceFile} {facts last : Facts} {number handle source target scope : Nat}
  {body : Option Entry} {name id site : String}

theorem exists_isBody (has : file.HasBody body) :
    ∃ number < (Facts.of file).regions.size, (Facts.of file).IsBody file number body := by
  have size := (charts_of file).size_regions
  cases body with
  | none => exact ⟨0, by omega, rfl⟩
  | some entry =>
    obtain ⟨kind, yield, inside, cursor, node⟩ := has
    obtain ⟨look, begun, there⟩ := SourceFile.mem_yields.1 inside
    have listed : entry.node ∈ nodesIn .func file.comings := by
      refine List.mem_filter.2 ⟨node ▸ List.mem_map_of_mem (List.mem_flatMap.2 ⟨look, begun, ?_⟩),
        decide_eq_true kind⟩
      exact Look.mem_comings.2 there
    obtain ⟨place, less, here⟩ := List.getElem_of_mem listed
    have all := counted_of file (show NodeKind.func ∈ NodeKind.entered by decide)
    have inner : place < (Facts.of file).signatures.length := by
      have length := all.length_eq
      rw [handles, List.length_map] at length
      omega
    have spot := all.get (by rwa [handles, List.length_map]) less
    refine ⟨place + 1, ?_, ⟨kind, yield, inside, cursor, node⟩, place, rfl, _,
      List.getElem?_eq_getElem inner, ?_⟩
    · rw [size, ← length_signatures]
      exact Nat.succ_lt_succ inner
    · simpa [handles, here] using spot

/-- A variable that a name stands for has this name. -/
theorem nameOf_of_known {text : String}
    (known : (Facts.of file).scopes.resolveVariable scope text = some handle) :
    (Facts.of file).graph.nameOf handle = text := by
  obtain ⟨number, declared⟩ := Scopes.variableIn?_of_resolveVariable known
  obtain ⟨yield, -, ⟨held, found, id⟩, rfl, mode, node⟩ := bound_of file number text handle declared
  have sound := sound_of file
  cases mode with
  | declare word _ =>
    obtain same := congrArg Node.id (Option.some.inj node)
    exact @Sound.nameOf_eq file _ sound handle held yield.cursor .var none found (id.trans same.symm) rfl
  | assign _ => cases node
  | param _ _ _ _ =>
    obtain same := congrArg Node.id (Option.some.inj node)
    exact @Sound.nameOf_eq file _ sound handle held yield.cursor .param none found (id.trans same.symm) rfl

/-- The region of a simple body recites its script, and looking up the names is all that follows. -/
theorem exists_recitation (told : Told file.yields) (simple : file.Simple body)
    (isBody : (Facts.of file).IsBody file number body) (less : number < (Facts.of file).regions.size) :
    ∃ last scope, Facts.of file = last.resolveNames ∧ Recitation file last number body scope := by
  obtain ⟨last, same, each⟩ := exists_recitations file
  rw [same, resolveNames, Array.size_map] at less
  obtain ⟨other, itself, recited⟩ := each number less
  obtain rfl : body = other := isBody.unique told (same ▸ itself)
  obtain ⟨scope, recitation⟩ := recited simple
  exact ⟨last, scope, same, recitation⟩

/-- What flows to the reads of a name in the region of a simple body. -/
theorem IsBody.flowsIn_iff (isBody : (Facts.of file).IsBody file number body) (told : Told file.yields)
    (simple : file.Simple body) (less : number < (Facts.of file).regions.size)
    (stands : (Facts.of file).StandsFor file body name id) (spot : (Facts.of file).graph.IdAt target site) :
    (∃ handle, (Facts.of file).graph.nameOf handle = name ∧
        (Facts.of file).FlowsIn number handle source target) ↔
      ∃ before, Mention.ReadAfter name site before (file.mentionsIn body) ∧
        ((∃ write, Mention.lastWrite? name [id] before = some write ∧
            write.At (Facts.of file).graph source) ∨
          Mention.lastWrite? name [id] before = none ∧
            ∃ handle, (Facts.of file).graph.IdAt handle id ∧
              (Facts.of file).Incoming number handle source) := by
  obtain ⟨last, scope, same, recitation⟩ := exists_recitation told simple isBody less
  have formed := (sound_of file).formed
  have names := @nameOf_of_known file
  obtain ⟨handle, known, node⟩ := stands number scope isBody (by rw [same]; exact recitation.top)
  have alone : ∀ other, (Facts.of file).scopes.resolveVariable scope other = some handle → other = name :=
    fun other found => (names found).symm.trans (names known)
  have named := names known
  have flows : (Facts.of file).FlowsIn number handle source target ↔ _ :=
    recitation.flowsIn_iff same formed node known alone spot
  have incoming : (∃ handle, (Facts.of file).graph.IdAt handle id ∧
      (Facts.of file).Incoming number handle source) ↔ (Facts.of file).Incoming number handle source :=
    ⟨fun ⟨other, spot', entry⟩ => formed.idAt_unique spot' node ▸ entry, fun entry => ⟨handle, node, entry⟩⟩
  rw [incoming, SourceFile.mentionsIn, ← flows]
  refine ⟨fun ⟨other, also, flow⟩ => ?_, fun flow => ⟨handle, named, flow⟩⟩
  obtain ⟨text, found⟩ := recitation.known_of_flowsIn same flow
  obtain rfl : text = name := (names found).symm.trans also
  obtain rfl := Option.some.inj (known.symm.trans found)
  exact flow

/-- A read of a name shows in the region of a simple body. -/
theorem IsBody.exists_access (isBody : (Facts.of file).IsBody file number body) (told : Told file.yields)
    (simple : file.Simple body) (less : number < (Facts.of file).regions.size)
    (stands : (Facts.of file).StandsFor file body name id) (spot : (Facts.of file).graph.IdAt target site)
    {before : List Mention} (behind : Mention.ReadAfter name site before (file.mentionsIn body)) :
    ∃ access ∈ (Facts.of file).accessesIn number, access.site = target := by
  obtain ⟨last, scope, same, recitation⟩ := exists_recitation told simple isBody less
  obtain ⟨handle, known, node⟩ := stands number scope isBody (by rw [same]; exact recitation.top)
  refine recitation.exists_access same (sound_of file).formed node known (fun other found => ?_) spot behind
  exact (nameOf_of_known found).symm.trans (nameOf_of_known known)

end Facts

namespace SourceFile

open Facts

variable {file : SourceFile} {body : Option Entry} {name id site : String} {source target : Nat}

/-- Regions with accesses at one site are of one body. -/
theorem Apart.body_unique (apart : file.Apart) {number number' : Nat} {body other : Option Entry}
    (isBody : (Facts.of file).IsBody file number body) (also : (Facts.of file).IsBody file number' other)
    {access access' : Access} (there : access ∈ (Facts.of file).accessesIn number)
    (there' : access' ∈ (Facts.of file).accessesIn number') (same : access.site = access'.site) :
    body = other := by
  obtain ⟨yield, inside, spot, owner, owned, around⟩ := seated_of file number access there
  obtain ⟨yield', inside', spot', owner', owned', around'⟩ := seated_of file number' access' there'
  obtain rfl := apart.told yield inside yield' inside' ((same ▸ spot).unique spot')
  have names := (isBody.around owned around).symm.trans (also.around owned' around')
  cases body with
  | none =>
    cases other with
    | none => rfl
    | some entry' => cases names
  | some entry =>
    cases other with
    | none => cases names
    | some entry' => rw [entered_unique apart.told isBody.1 also.1 (Option.some.inj names)]

/-- In a simple body a definition flows to a read of a name just if it is the last write before the read, of
what the name stands for, or if there is none and it is live at the entry. -/
theorem Apart.flows_iff (apart : file.Apart) (has : file.HasBody body) (simple : file.Simple body)
    (stands : (Facts.of file).StandsFor file body name id) (spot : (Facts.of file).graph.IdAt target site)
    (read : ∃ before, Mention.ReadAfter name site before (file.mentionsIn body)) :
    (Facts.of file).Flows source target (some name) ↔ source ≠ target ∧
      ∃ before, Mention.ReadAfter name site before (file.mentionsIn body) ∧
        ((∃ write, Mention.lastWrite? name [id] before = some write ∧
            write.At (Facts.of file).graph source) ∨
          Mention.lastWrite? name [id] before = none ∧
            (Facts.of file).EntersBody file body id source) := by
  obtain ⟨own, inside, isOwn⟩ := exists_isBody has
  constructor
  · intro flows
    obtain ⟨apart_, number, handle, named, flow⟩ := Facts.flows_iff.1 flows
    refine ⟨apart_, ?_⟩
    have less : number < (Facts.of file).regions.size := by
      obtain ⟨region, _, _, _, found, -⟩ := flow
      exact (Array.getElem?_eq_some_iff.1 found).1
    -- The site of a read tells the body, so the read is in a region of this one.
    obtain ⟨other, isBody⟩ : ∃ other, (Facts.of file).IsBody file number other := by
      obtain ⟨last, same, each⟩ := exists_recitations file
      rw [same, resolveNames, Array.size_map] at less
      obtain ⟨other, isBody, -⟩ := each number less
      exact ⟨other, same ▸ isBody⟩
    obtain ⟨access, there, here⟩ : ∃ access ∈ (Facts.of file).accessesIn number, access.site = target := by
      obtain ⟨region, place, earlier, access, found, ⟨later, split⟩, -, here, -⟩ := flow
      exact ⟨access, mem_accessesIn.2 ⟨region, found,
        Region.mem_allAccesses.2 ⟨place, by rw [split]; simp⟩⟩, here⟩
    obtain ⟨_, behind⟩ := read
    obtain ⟨access', there', here'⟩ := isOwn.exists_access apart.told simple inside stands spot behind
    obtain rfl := apart.body_unique isBody isOwn there there' (here.trans here'.symm)
    obtain ⟨before, behind, left⟩ := (isBody.flowsIn_iff apart.told simple less stands spot).1
      ⟨handle, (Option.some.inj named).symm, flow⟩
    refine ⟨before, behind, left.imp_right ?_⟩
    rintro ⟨none_, handle, node, entry⟩
    exact ⟨none_, number, handle, isBody, node, entry⟩
  · rintro ⟨other, before, behind, left⟩
    refine Facts.flows_iff.2 ⟨other, ?_⟩
    rcases left with ⟨write, last, there⟩ | ⟨none_, number, handle, isBody, node, entry⟩
    · obtain ⟨handle, named, flow⟩ := (isOwn.flowsIn_iff apart.told simple inside stands spot).2
        ⟨before, behind, .inl ⟨write, last, there⟩⟩
      exact ⟨own, handle, by rw [named], flow⟩
    · have less : number < (Facts.of file).regions.size := by
        obtain ⟨region, found, -⟩ := entry
        exact (Array.getElem?_eq_some_iff.1 found).1
      obtain ⟨handle, named, flow⟩ := (isBody.flowsIn_iff apart.told simple less stands spot).2
        ⟨before, behind, .inr ⟨none_, handle, node, entry⟩⟩
      exact ⟨number, handle, by rw [named], flow⟩

end SourceFile

end CodeGraph

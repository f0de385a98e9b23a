import CodeGraph.Flow.Edges
import CodeGraph.Proofs.Flow.Reaching
import CodeGraph.Proofs.Flow.Traces
import CodeGraph.Proofs.Graph.EdgeId
import CodeGraph.Proofs.Graph.Reached

/-!
# Data-flow edges

The edges of data flow are those that the accesses of the regions call for, and no others
(`DataFlow.edges_exact`): `defines` for the writes, `uses` for the reads, and a flow edge from a
definition to a read that it reaches. Whether it reaches the read is said without sets of
definitions: by the last write before the read in its own list of accesses, and else by a path of
control that leaves the variable alone (`LiveBefore`).
-/

namespace CodeGraph

namespace Region

/-- The accesses of a statement, or of the entry. -/
def accessesAt (region : Region) : Option Nat → List Access
  | none => region.entryAccesses.toList
  | some s => region.accessesOf s

theorem mem_allAccesses {region : Region} {access : Access} :
    access ∈ region.allAccesses ↔ ∃ place, access ∈ region.accessesAt place := by
  rw [allAccesses, List.mem_append, List.mem_flatMap]
  constructor
  · rintro (entry | ⟨list, inside, there⟩)
    · exact ⟨none, entry⟩
    · obtain ⟨s, found⟩ := List.getElem?_of_mem inside
      refine ⟨some s, ?_⟩
      rw [accessesAt, accessesOf, ← Array.getElem?_toList, found]
      exact there
  · rintro ⟨_ | s, there⟩
    · exact .inl there
    · rw [accessesAt, accessesOf] at there
      cases found : region.accesses[s]? with
      | none =>
        rw [found] at there
        cases there
      | some list =>
        rw [found] at there
        exact .inr ⟨list, Array.mem_toList_iff.2 (Array.mem_of_getElem? found), there⟩

/-- Every statement has a list of accesses. -/
theorem Built.size_accesses {region : Region} (built : region.Built) :
    region.accesses.size = region.skeleton.statements.size := by
  induction built with
  | start owner params => rfl
  | push block site kind _ _ ih =>
    rw [skeleton_push, Skeleton.size_statements_push, ← ih]
    exact Array.size_push _
  | addArm statement role _ _ ih =>
    rw [skeleton_addArm, Skeleton.size_statements_addArm]
    exact ih
  | record statement access _ _ ih =>
    rw [skeleton_record]
    cases statement with
    | none => exact ih
    | some number => simp only [Region.record, Array.size_modify, ih]

/-- The nodes that a region speaks of are nodes of a graph. -/
def HeldBy (region : Region) (graph : Graph) : Prop :=
  (∀ param ∈ region.params.toList, param < graph.nodes.size) ∧
    ∀ access ∈ region.allAccesses, access.site < graph.nodes.size ∧
      ∀ binding, access.handle? = some binding → binding < graph.nodes.size

end Region

theorem mem_of_lastWrite? {accesses : List Access} {binding site : Nat}
    (written : lastWrite? accesses binding = some site) :
    ∃ access ∈ accesses, access.defined? = some binding ∧ access.site = site := by
  induction accesses with
  | nil => cases written
  | cons access rest ih =>
    rw [lastWrite?, Option.or_eq_some_iff] at written
    rcases written with later | ⟨-, here⟩
    · obtain ⟨other, there, known⟩ := ih later
      exact ⟨other, List.mem_cons_of_mem _ there, known⟩
    · split at here
      · next same =>
        exact ⟨access, List.mem_cons_self, same, Option.some.inj here⟩
      · cases here

theorem handle?_of_defined? {access : Access} {binding : Nat}
    (written : access.defined? = some binding) : access.handle? = some binding := by
  unfold Access.defined? at written
  split at written
  · exact written
  · cases written

theorem handle?_of_used? {access : Access} {binding : Nat}
    (read : access.used? = some binding) : access.handle? = some binding := by
  unfold Access.used? at read
  split at read
  · exact read
  · cases read

namespace DataFlow

/-! ## What is live -/

/-- A definition is made somewhere: a parameter by itself, or by a write. -/
def Made (regions : List Region) (definition : Definition) : Prop :=
  ∃ region ∈ regions, (definition.binding ∈ region.params.toList ∧
      definition.site = definition.binding) ∨
    ∃ access ∈ region.allAccesses, access.defined? = some definition.binding ∧
      access.site = definition.site

/-- A definition is live at the entry of a region: its variable is a parameter of the region, or the
region accesses the variable, which is declared in another region. -/
def LiveAtEntry (regionOf : Nat → Option Nat) (regions : List Region) (number : Nat)
    (region : Region) (definition : Definition) : Prop :=
  (definition.binding ∈ region.params.toList ∧ definition.site = definition.binding) ∨
    (∃ access ∈ region.allAccesses, access.handle? = some definition.binding) ∧
      (∃ owner, regionOf definition.binding = some owner ∧ owner ≠ number) ∧
      Made regions definition

/-- A definition is live before the accesses of a statement, or of the entry. -/
def LiveAt (region : Region) (control : Control) (entry : Definition → Prop) :
    Option Nat → Definition → Prop
  | none => entry
  | some s => fun definition => LiveBefore region control entry definition s

theorem mem_ownDefinitions {region : Region} {binding site : Nat} :
    (⟨binding, site⟩ : Definition) ∈ region.params.toList.map (fun param => ⟨param, param⟩) ↔
      binding ∈ region.params.toList ∧ site = binding := by
  rw [List.mem_map]
  constructor
  · rintro ⟨param, inside, same⟩
    obtain ⟨rfl, rfl⟩ := Definition.mk.inj same
    exact ⟨inside, rfl⟩
  · rintro ⟨inside, rfl⟩
    exact ⟨_, inside, rfl⟩

theorem mem_definitions {regions : List Region} {definition : Definition} :
    definition ∈ definitions regions ↔ Made regions definition := by
  obtain ⟨binding, site⟩ := definition
  simp only [definitions, List.mem_flatMap, List.mem_append, mem_ownDefinitions,
    List.mem_filterMap, Made]
  refine exists_congr fun region => and_congr_right fun _ => or_congr Iff.rfl ?_
  refine exists_congr fun access => and_congr_right fun _ => ?_
  rw [Option.map_eq_some_iff]
  constructor
  · rintro ⟨other, written, same⟩
    obtain ⟨rfl, rfl⟩ := Definition.mk.inj same
    exact ⟨written, rfl⟩
  · rintro ⟨written, rfl⟩
    exact ⟨binding, written, rfl⟩

theorem mem_entryState {regionOf : Nat → Option Nat} {regions : List Region} {number : Nat}
    {region : Region} {definition : Definition} :
    definition ∈ entryState regionOf (definitions regions) number region ↔
      LiveAtEntry regionOf regions number region definition := by
  obtain ⟨binding, site⟩ := definition
  have captured : ∀ access : Access,
      access.handle?.filter (isCaptured regionOf number) = some binding ↔
        access.handle? = some binding ∧ ∃ owner, regionOf binding = some owner ∧ owner ≠ number := by
    intro access
    rw [Option.filter_eq_some_iff]
    refine and_congr_right fun _ => ?_
    unfold isCaptured
    cases regionOf binding <;> simp
  rw [entryState, Definition.mem_sorted, List.mem_append, List.mem_filter, mem_definitions,
    mem_ownDefinitions]
  simp only [List.contains_iff_mem, List.mem_eraseDups, List.mem_filterMap, captured]
  refine or_congr Iff.rfl ⟨?_, ?_⟩
  · rintro ⟨made, access, there, known, owned⟩
    exact ⟨⟨access, there, known⟩, owned, made⟩
  · rintro ⟨⟨access, there, known⟩, owned, made⟩
    exact ⟨made, access, there, known, owned⟩

theorem made_of_lastWrite? {regions : List Region} {region : Region} (inside : region ∈ regions)
    {accesses : List Access} (place : Option Nat)
    (part : ∀ access ∈ accesses, access ∈ region.accessesAt place) {definition : Definition}
    (last : lastWrite? accesses definition.binding = some definition.site) :
    Made regions definition := by
  obtain ⟨access, there, writes, site⟩ := mem_of_lastWrite? last
  exact ⟨region, inside, .inr ⟨access, Region.mem_allAccesses.2 ⟨place, part access there⟩, writes,
    site⟩⟩

/-- What is live anywhere in a region was made somewhere. -/
theorem made_of_liveAfter {regionOf : Nat → Option Nat} {regions : List Region} {number : Nat}
    {region : Region} (inside : region ∈ regions) {control : Control} {place : Option Nat}
    {earlier later : List Access} (split : region.accessesAt place = earlier ++ later)
    {definition : Definition}
    (live : LiveAfter (LiveAt region control (LiveAtEntry regionOf regions number region) place)
      earlier definition) : Made regions definition := by
  have entered : LiveAtEntry regionOf regions number region definition → Made regions definition := by
    rintro (param | ⟨-, -, made⟩)
    · exact ⟨region, inside, .inl param⟩
    · exact made
  rcases live with last | ⟨-, before⟩
  · refine made_of_lastWrite? inside place (fun access there => ?_) last
    rw [split]
    exact List.mem_append_left _ there
  · cases place with
    | none => exact entered before
    | some s =>
      rcases before with ⟨maker, next, last, -, -⟩ | ⟨first, -, last | ⟨-, entry⟩, -⟩
      · exact made_of_lastWrite? inside (some maker) (fun access there => there) last
      · exact made_of_lastWrite? inside none (fun access there => there) last
      · exact entered entry

/-! ## The edges that are asked for -/

/-- `Asks nameOf live access connection`: an access asks for an edge, where `live` are the
definitions that are live before it. A definition does not flow into its own site. -/
inductive Asks (nameOf : Nat → String) (live : Definition → Prop) (access : Access) :
    Connection → Prop
  | defines {binding : Nat} : access.defined? = some binding →
      Asks nameOf live access { source := access.site, target := binding, kind := .defines }
  | uses {binding : Nat} : access.used? = some binding →
      Asks nameOf live access { source := access.site, target := binding, kind := .uses }
  | flow {binding site : Nat} : access.used? = some binding → live ⟨binding, site⟩ →
      site ≠ access.site → Asks nameOf live access
        { source := site, target := access.site, kind := .flow, tag := some (nameOf binding)
          properties := Properties.empty.insert "variable" (.text (nameOf binding)) }

theorem mem_accessEdges {nameOf : Nat → String} {state : List Definition} {access : Access}
    {connection : Connection} :
    connection ∈ accessEdges nameOf state access ↔
      Asks nameOf (· ∈ state) access connection := by
  obtain ⟨kind, bound, site⟩ := access
  cases bound with
  | name text scope =>
    refine iff_of_false (by simp [accessEdges, Access.handle?]) ?_
    intro asks
    cases asks with
    | defines written => cases kind <;> cases written
    | uses read => cases kind <;> cases read
    | flow read _ _ => cases kind <;> cases read
  | node binding =>
    cases kind with
    | write =>
      constructor
      · intro inside
        obtain rfl := List.mem_singleton.1 inside
        exact .defines rfl
      · intro asks
        cases asks with
        | defines written =>
          obtain rfl := Option.some.inj written
          exact List.mem_singleton.2 rfl
        | uses read => cases read
        | flow read _ _ => cases read
    | read =>
      constructor
      · intro inside
        rcases List.mem_cons.1 inside with rfl | flowing
        · exact .uses rfl
        · obtain ⟨definition, kept, rfl⟩ := List.mem_map.1 flowing
          obtain ⟨live, both⟩ := List.mem_filter.1 kept
          obtain ⟨same, other⟩ := Bool.and_eq_true_iff.1 both
          obtain rfl : definition.binding = binding := eq_of_beq same
          exact .flow rfl live (by simpa using other)
      · intro asks
        cases asks with
        | defines written => cases written
        | uses read =>
          obtain rfl := Option.some.inj read
          exact List.mem_cons_self
        | flow read live other =>
          obtain rfl := Option.some.inj read
          refine List.mem_cons_of_mem _ (List.mem_map.2 ⟨_, List.mem_filter.2 ⟨live, ?_⟩, rfl⟩)
          simpa using other

theorem mem_edgesAlong_split {nameOf : Nat → String} {state : List Definition}
    {accesses : List Access} {connection : Connection} :
    connection ∈ edgesAlong nameOf state accesses ↔ ∃ earlier access later,
      accesses = earlier ++ access :: later ∧
        connection ∈ accessEdges nameOf (Definition.transfer state earlier) access := by
  induction accesses generalizing state with
  | nil => simp [edgesAlong]
  | cons first rest ih =>
    rw [edgesAlong, List.mem_append, ih]
    constructor
    · rintro (here | ⟨earlier, access, later, rfl, there⟩)
      · exact ⟨[], first, rest, rfl, here⟩
      · exact ⟨first :: earlier, access, later, rfl, there⟩
    · rintro ⟨earlier, access, later, split, there⟩
      cases earlier with
      | nil =>
        obtain ⟨rfl, rfl⟩ := List.cons.inj split
        exact .inl there
      | cons other earlier =>
        obtain ⟨rfl, rfl⟩ := List.cons.inj split
        exact .inr ⟨earlier, access, later, rfl, there⟩

/-- The edges along a list of accesses are those that the accesses ask for. -/
theorem mem_edgesAlong {nameOf : Nat → String} {state : List Definition} {accesses : List Access}
    {connection : Connection} :
    connection ∈ edgesAlong nameOf state accesses ↔ ∃ earlier access later,
      accesses = earlier ++ access :: later ∧
        Asks nameOf (LiveAfter (· ∈ state) earlier) access connection := by
  have live : ∀ earlier, LiveAfter (· ∈ state) earlier =
      (· ∈ Definition.transfer state earlier) := by
    intro earlier
    funext definition
    exact propext Definition.mem_transfer.symm
  simp only [live, ← mem_accessEdges]
  exact mem_edgesAlong_split

/-- The edges of a region are those that its accesses ask for. -/
theorem mem_regionEdges {nameOf : Nat → String} {region : Region} {control : Control}
    (bounded : ∀ s, region.accesses.size ≤ s → control.successors s = [])
    {entry : List Definition} {connection : Connection} :
    connection ∈ regionEdges nameOf region control entry ↔
      ∃ place earlier access later, region.accessesAt place = earlier ++ access :: later ∧
        Asks nameOf (LiveAfter (LiveAt region control (· ∈ entry) place) earlier) access
          connection := by
  have live : ∀ (s : Nat) (state : List Definition),
      (Reaching.before region control entry)[s]? = some state →
      (· ∈ state) = LiveAt region control (· ∈ entry) (some s) := by
    intro s state found
    funext definition
    exact propext (Reaching.mem_before bounded found definition)
  rw [regionEdges, List.mem_append, mem_edgesAlong, List.mem_flatMap]
  constructor
  · rintro (⟨earlier, access, later, split, asks⟩ | ⟨⟨state, accesses⟩, paired, there⟩)
    · exact ⟨none, earlier, access, later, split, asks⟩
    · obtain ⟨s, both⟩ := List.getElem?_of_mem paired
      obtain ⟨found, list⟩ := List.getElem?_zip_eq_some.1 both
      obtain ⟨earlier, access, later, split, asks⟩ := mem_edgesAlong.1 there
      refine ⟨some s, earlier, access, later, ?_, live s state found ▸ asks⟩
      rw [Region.accessesAt, Region.accessesOf, ← Array.getElem?_toList, list]
      exact split
  · rintro ⟨_ | s, earlier, access, later, split, asks⟩
    · exact .inl ⟨earlier, access, later, split, asks⟩
    · have inside : s < region.accesses.size := by
        rcases Nat.lt_or_ge s region.accesses.size with less | beyond
        · exact less
        · rw [Region.accessesAt, Region.accessesOf, Array.getElem?_eq_none beyond] at split
          simp at split
      have within : s < (Reaching.before region control entry).length := by
        rw [Reaching.length_before]
        exact inside
      have found : (Reaching.before region control entry)[s]? =
          some (Reaching.before region control entry)[s] := List.getElem?_eq_getElem within
      have list : region.accesses.toList[s]? = some region.accesses[s] := by
        rw [Array.getElem?_toList, Array.getElem?_eq_getElem inside]
      have paired := List.getElem?_zip_eq_some (z := (_, _)).2 ⟨found, list⟩
      refine .inr ⟨_, List.mem_of_getElem? paired, ?_⟩
      refine mem_edgesAlong.2 ⟨earlier, access, later, ?_, ?_⟩
      · rw [Region.accessesAt, Region.accessesOf, Array.getElem?_eq_getElem inside] at split
        exact split
      · rw [live s _ found]
        exact asks

/-! ## Exactly these edges -/

/-- The control flow of each region in a list. -/
def controlsOf (regions : List Region) : List Control :=
  regions.map fun region => Control.of region.skeleton

/-- A definition is live before an access of a region: the access is one of those at `place`, and
`earlier` are the accesses there before it. -/
def Reaches (regionOf : Nat → Option Nat) (regions : List Region) (number : Nat) (region : Region)
    (place : Option Nat) (earlier : List Access) : Definition → Prop :=
  LiveAfter (LiveAt region (Control.of region.skeleton)
    (LiveAtEntry regionOf regions number region) place) earlier

/-- An access stands at a place of a region, behind other accesses there. -/
def Stands (region : Region) (place : Option Nat) (earlier : List Access) (access : Access) : Prop :=
  ∃ later, region.accessesAt place = earlier ++ access :: later

/-- The edges of a list of regions are those that the accesses of the regions ask for. -/
theorem mem_edges {nameOf : Nat → String} {regionOf : Nat → Option Nat} {regions : List Region}
    (built : ∀ region ∈ regions, region.Built) {connection : Connection} :
    connection ∈ edges nameOf regionOf regions (controlsOf regions) ↔
      ∃ number region place earlier access, regions[number]? = some region ∧
        Stands region place earlier access ∧
        Asks nameOf (Reaches regionOf regions number region place earlier) access connection := by
  have numbered : ∀ (number : Nat) (region : Region) (control : Control),
      ((region, control), number) ∈ (regions.zip (controlsOf regions)).zipIdx ↔
        regions[number]? = some region ∧ control = Control.of region.skeleton := by
    intro number region control
    rw [List.mem_zipIdx_iff_getElem?, List.getElem?_zip_eq_some, controlsOf, List.getElem?_map]
    refine and_congr_right fun found => ?_
    rw [found, Option.map_some, Option.some.injEq]
    exact eq_comm
  have inRegion : ∀ (number : Nat) (region : Region), regions[number]? = some region →
      (connection ∈ regionEdges nameOf region (Control.of region.skeleton)
          (entryState regionOf (definitions regions) number region) ↔
        ∃ place earlier access, Stands region place earlier access ∧
          Asks nameOf (Reaches regionOf regions number region place earlier) access
            connection) := by
    intro number region found
    have bounded : ∀ s, region.accesses.size ≤ s →
        (Control.of region.skeleton).successors s = [] := by
      intro s beyond
      rw [(built region (List.mem_of_getElem? found)).size_accesses] at beyond
      refine List.eq_nil_iff_forall_not_mem.2 fun next => Control.not_successor ?_ next
      exact Array.getElem?_eq_none beyond
    have entry : (· ∈ entryState regionOf (definitions regions) number region) =
        LiveAtEntry regionOf regions number region := by
      funext definition
      exact propext mem_entryState
    rw [mem_regionEdges bounded, entry]
    constructor
    · rintro ⟨place, earlier, access, later, split, asks⟩
      exact ⟨place, earlier, access, ⟨later, split⟩, asks⟩
    · rintro ⟨place, earlier, access, ⟨later, split⟩, asks⟩
      exact ⟨place, earlier, access, later, split, asks⟩
  rw [edges, List.mem_flatMap]
  constructor
  · rintro ⟨⟨⟨region, control⟩, number⟩, inside, there⟩
    obtain ⟨found, rfl⟩ := (numbered number region control).1 inside
    obtain ⟨place, earlier, access, stands, asks⟩ := (inRegion number region found).1 there
    exact ⟨number, region, place, earlier, access, found, stands, asks⟩
  · rintro ⟨number, region, place, earlier, access, found, stands, asks⟩
    exact ⟨((region, _), number), (numbered number region _).2 ⟨found, rfl⟩,
      (inRegion number region found).2 ⟨place, earlier, access, stands, asks⟩⟩

/-- Both ends of every edge are nodes that the regions speak of. -/
theorem joins_edges {graph : Graph} {nameOf : Nat → String} {regionOf : Nat → Option Nat}
    {regions : List Region} (built : ∀ region ∈ regions, region.Built)
    (held : ∀ region ∈ regions, region.HeldBy graph) :
    ∀ connection ∈ edges nameOf regionOf regions (controlsOf regions), graph.Joins connection := by
  intro connection inside
  obtain ⟨number, region, place, earlier, access, found, ⟨later, split⟩, asks⟩ :=
    (mem_edges built).1 inside
  have known := List.mem_of_getElem? found
  have there : access ∈ region.allAccesses :=
    Region.mem_allAccesses.2 ⟨place, by rw [split]; simp⟩
  obtain ⟨site, bound⟩ := (held region known).2 access there
  have made : ∀ definition, Made regions definition → definition.site < graph.nodes.size := by
    rintro definition ⟨maker, listed, ⟨param, same⟩ | ⟨write, stood, written, same⟩⟩
    · rw [same]
      exact (held maker listed).1 _ param
    · rw [← same]
      exact ((held maker listed).2 write stood).1
  cases asks with
  | defines written => exact ⟨site, bound _ (handle?_of_defined? written)⟩
  | uses read => exact ⟨site, bound _ (handle?_of_used? read)⟩
  | flow read live other => exact ⟨made _ (made_of_liveAfter known split live), site⟩

section Asked

variable {nameOf : Nat → String} {live : Definition → Prop} {access : Access} {source target : Nat}
  {tag : Option String}

/-- An access asks for an edge of a kind between two nodes, under a tag. -/
def AsksFor (nameOf : Nat → String) (live : Definition → Prop) (access : Access) (kind : EdgeKind)
    (source target : Nat) (tag : Option String) : Prop :=
  ∃ connection, Asks nameOf live access connection ∧ connection.kind = kind ∧
    connection.source = source ∧ connection.target = target ∧ connection.tag = tag

theorem asksFor_defines : AsksFor nameOf live access .defines source target tag ↔
    tag = none ∧ access.defined? = some target ∧ access.site = source := by
  constructor
  · rintro ⟨connection, asks, kind, rfl, rfl, rfl⟩
    cases asks with
    | defines written => exact ⟨rfl, written, rfl⟩
    | uses _ => cases kind
    | flow _ _ _ => cases kind
  · rintro ⟨rfl, written, rfl⟩
    exact ⟨_, .defines written, rfl, rfl, rfl, rfl⟩

theorem asksFor_uses : AsksFor nameOf live access .uses source target tag ↔
    tag = none ∧ access.used? = some target ∧ access.site = source := by
  constructor
  · rintro ⟨connection, asks, kind, rfl, rfl, rfl⟩
    cases asks with
    | defines _ => cases kind
    | uses read => exact ⟨rfl, read, rfl⟩
    | flow _ _ _ => cases kind
  · rintro ⟨rfl, read, rfl⟩
    exact ⟨_, .uses read, rfl, rfl, rfl, rfl⟩

theorem asksFor_flow : AsksFor nameOf live access .flow source target tag ↔
    ∃ binding, access.used? = some binding ∧ access.site = target ∧ source ≠ target ∧
      tag = some (nameOf binding) ∧ live ⟨binding, source⟩ := by
  constructor
  · rintro ⟨connection, asks, kind, rfl, rfl, rfl⟩
    cases asks with
    | defines _ => cases kind
    | uses _ => cases kind
    | @flow binding site read live other => exact ⟨binding, read, rfl, other, rfl, live⟩
  · rintro ⟨binding, read, rfl, other, rfl, live⟩
    exact ⟨_, .flow read live other, rfl, rfl, rfl, rfl⟩

end Asked

/-- After the edges of data flow have been added, there are the old edges and those that the
accesses ask for. -/
theorem hasEdge_connectAll_edges {graph : Graph} (formed : graph.WellFormed)
    (tells : graph.TellsEdges) (regionOf : Nat → Option Nat) {regions : List Region}
    (built : ∀ region ∈ regions, region.Built) (held : ∀ region ∈ regions, region.HeldBy graph)
    (kind : EdgeKind) (source target : Nat) (tag : Option String) :
    (graph.connectAll (edges graph.nameOf regionOf regions (controlsOf regions))).HasEdge kind
        source target tag ↔
      graph.HasEdge kind source target tag ∨
        ∃ number region place earlier access, regions[number]? = some region ∧
          Stands region place earlier access ∧
          AsksFor graph.nameOf (Reaches regionOf regions number region place earlier) access kind
            source target tag := by
  rw [formed.hasEdge_connectAll tells (joins_edges built held)]
  refine or_congr Iff.rfl ⟨?_, ?_⟩
  · rintro ⟨connection, inside, fits⟩
    obtain ⟨number, region, place, earlier, access, found, stands, asks⟩ :=
      (mem_edges built).1 inside
    exact ⟨number, region, place, earlier, access, found, stands, connection, asks, fits⟩
  · rintro ⟨number, region, place, earlier, access, found, stands, connection, asks, fits⟩
    exact ⟨connection, (mem_edges built).2 ⟨number, region, place, earlier, access, found, stands,
      asks⟩, fits⟩

/-- The accesses of some regions stand at their places. -/
theorem exists_stands {regions : List Region} {P : Access → Prop} :
    (∃ (number : Nat) (region : Region) (place : Option Nat) (earlier : List Access)
        (access : Access), regions[number]? = some region ∧ Stands region place earlier access ∧
        P access) ↔
      ∃ region ∈ regions, ∃ access ∈ region.allAccesses, P access := by
  constructor
  · rintro ⟨number, region, place, earlier, access, found, ⟨later, split⟩, fits⟩
    have there : access ∈ region.accessesAt place := by rw [split]; simp
    exact ⟨region, List.mem_of_getElem? found, access, Region.mem_allAccesses.2 ⟨place, there⟩, fits⟩
  · rintro ⟨region, known, access, inside, fits⟩
    obtain ⟨number, found⟩ := List.getElem?_of_mem known
    obtain ⟨place, there⟩ := Region.mem_allAccesses.1 inside
    obtain ⟨earlier, later, split⟩ := List.append_of_mem there
    exact ⟨number, region, place, earlier, access, found, ⟨later, split⟩, fits⟩

/-- After the edges of data flow have been added to a graph that holds the nodes of some regions, and
whose ids are plain, its `defines` edges are the old ones and one for each write, its `uses` edges
the old ones and one for each read, and its flow edges the old ones and one for each definition that
reaches a read at another site. -/
theorem edges_exact {graph : Graph} (formed : graph.WellFormed) (plain : graph.PlainIds)
    (regionOf : Nat → Option Nat) {regions : List Region}
    (built : ∀ region ∈ regions, region.Built) (held : ∀ region ∈ regions, region.HeldBy graph) :
    let after := graph.connectAll (edges graph.nameOf regionOf regions (controlsOf regions))
    (∀ site binding tag, after.HasEdge .defines site binding tag ↔
      graph.HasEdge .defines site binding tag ∨ ∃ region ∈ regions,
        ∃ access ∈ region.allAccesses,
          tag = none ∧ access.defined? = some binding ∧ access.site = site) ∧
    (∀ site binding tag, after.HasEdge .uses site binding tag ↔
      graph.HasEdge .uses site binding tag ∨ ∃ region ∈ regions,
        ∃ access ∈ region.allAccesses,
          tag = none ∧ access.used? = some binding ∧ access.site = site) ∧
    ∀ source target tag, after.HasEdge .flow source target tag ↔
      graph.HasEdge .flow source target tag ∨
        ∃ number region place earlier access, regions[number]? = some region ∧
          Stands region place earlier access ∧ ∃ binding, access.used? = some binding ∧
          access.site = target ∧ source ≠ target ∧ tag = some (graph.nameOf binding) ∧
          Reaches regionOf regions number region place earlier ⟨binding, source⟩ := by
  have exact := hasEdge_connectAll_edges formed (formed.tellsEdges_of_plain plain) regionOf built held
  refine ⟨fun site binding tag => ?_, fun site binding tag => ?_, fun source target tag => ?_⟩
  · rw [exact]
    simp only [asksFor_defines]
    rw [exists_stands]
  · rw [exact]
    simp only [asksFor_uses]
    rw [exists_stands]
  · rw [exact]
    simp only [asksFor_flow]

/-- A statement that writes a variable, and one behind it that reads it. -/
def writeThenRead : Region :=
  let region : Region := (Region.push { owner := none } 0 1 .simple).1
  let region := (region.push 0 2 .simple).1
  let region := region.record (some 0) ⟨.write, .node 0, 1⟩
  region.record (some 1) ⟨.read, .node 0, 2⟩

theorem writeThenRead_built : writeThenRead.Built := by
  have first := (Region.Built.start none #[]).push 0 1 .simple (by decide)
  have second := first.push 0 2 .simple (by decide)
  have write := second.record (some 0) ⟨.write, .node 0, 1⟩ (by decide)
  exact write.record (some 1) ⟨.read, .node 0, 2⟩ (by decide)

/-- A variable and two statements. -/
def oneVariable : Graph :=
  let place (line : Nat) : Location := ⟨⟨"a.ts"⟩, line, 1⟩
  let graph := (Graph.empty.addNode ⟨"x", .var, some "x", place 1, {}⟩).1
  let graph := (graph.addNode ⟨"write", .stmt, none, place 2, {}⟩).1
  (graph.addNode ⟨"read", .stmt, none, place 3, {}⟩).1

theorem nodes_oneVariable : oneVariable.nodes =
    #[⟨"x", .var, some "x", ⟨⟨"a.ts"⟩, 1, 1⟩, {}⟩, ⟨"write", .stmt, none, ⟨⟨"a.ts"⟩, 2, 1⟩, {}⟩,
      ⟨"read", .stmt, none, ⟨⟨"a.ts"⟩, 3, 1⟩, {}⟩] := by
  simp [oneVariable, Graph.addNode, Graph.empty]

theorem oneVariable_plain : oneVariable.PlainIds := by
  refine Graph.plainIds_of_nodes nodes_oneVariable ?_
  unfold Graph.Plain
  decide

theorem oneVariable_wellFormed : oneVariable.WellFormed :=
  ((Graph.wellFormed_empty.addNode _).addNode _).addNode _

theorem writeThenRead_held : writeThenRead.HeldBy oneVariable := by
  have size : oneVariable.nodes.size = 3 := by rw [nodes_oneVariable]; rfl
  unfold Region.HeldBy
  rw [size]
  refine ⟨by decide, ?_⟩
  have accesses : writeThenRead.allAccesses =
      [⟨.write, .node 0, 1⟩, ⟨.read, .node 0, 2⟩] := by decide
  rw [accesses]
  simp [Access.handle?]

/-- The write reaches the read. -/
theorem writeThenRead_flows : writeThenRead.Built ∧ writeThenRead.HeldBy oneVariable ∧
    (oneVariable.connectAll (edges oneVariable.nameOf (fun _ => some 0) [writeThenRead]
      (controlsOf [writeThenRead]))).HasEdge .flow 1 2 (some "x") := by
  refine ⟨writeThenRead_built, writeThenRead_held, ?_⟩
  have built : ∀ region ∈ [writeThenRead], region.Built :=
    fun region there => List.mem_singleton.1 there ▸ writeThenRead_built
  have held : ∀ region ∈ [writeThenRead], region.HeldBy oneVariable :=
    fun region there => List.mem_singleton.1 there ▸ writeThenRead_held
  obtain ⟨-, -, flow⟩ :=
    edges_exact oneVariable_wellFormed oneVariable_plain (fun _ => some 0) built held
  have name : oneVariable.nameOf 0 = "x" := by rw [Graph.nameOf, nodes_oneVariable]; rfl
  refine (flow 1 2 (some "x")).2 (.inr ⟨0, writeThenRead, some 1, [], ⟨.read, .node 0, 2⟩, rfl,
    ⟨[], by decide⟩, 0, rfl, rfl, by decide, by rw [name], .inr ⟨rfl, .inl ?_⟩⟩)
  exact ⟨0, 1, by decide, by decide +kernel, .here⟩

end DataFlow

end CodeGraph

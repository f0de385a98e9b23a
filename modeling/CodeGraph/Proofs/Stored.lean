import CodeGraph.Proofs.Graph.Mirror
import CodeGraph.Proofs.Json.Values
import CodeGraph.Proofs.Time
import CodeGraph.Stored.Graph

/-!
# Graphs read back from their text

The text of a graph is read as the graph itself, but for its numbers: each comes back as its decimal is read
(`PropertyValue.reread`). The indexes are written in no fixed order and are built anew. So the graph that is
read mirrors the one that was written just where all its numbers come back as they were
(`Graph.Reached.ofText_toText`); whole numbers do up to `2 ^ 54 / 10`.
-/

namespace CodeGraph

open Doc

theorem map_eq_self_iff {α : Type} {f : α → α} {items : List α} :
    items.map f = items ↔ ∀ item ∈ items, f item = item := by
  induction items with
  | nil => simp
  | cons item items ih => rw [List.map_cons, List.cons.injEq, ih, List.forall_mem_cons]

/-! ## Property values -/

namespace PropertyValue

/-- What is read from the stored form of a value. -/
def reread : PropertyValue → PropertyValue
  | number value => number ((Numeral.ofBinary64 value).toBinary64?.getD value)
  | other => other

/-- A value is no number, or a whole one below `2 ^ 53`. -/
def Whole (value : PropertyValue) : Prop :=
  ∀ x, value = number x → ∃ n : Int, x.toInt? = some n ∧ n.natAbs < 2 ^ 53

variable {value : PropertyValue}

theorem Whole.isWhole {x : Binary64} (whole : (number x).Whole) : ∃ n, x.IsWhole n := by
  obtain ⟨n, found, small⟩ := whole x rfl
  exact ⟨n.natAbs, Binary64.isWhole_of_toInt? found small⟩

/-- Whole numbers up to `2 ^ 54 / 10` come back as they were. -/
theorem reread_eq_self
    (small : ∀ x, value = number x → ∃ n : Int, x.toInt? = some n ∧ 10 * n.natAbs ≤ 2 ^ 54) :
    value.reread = value := by
  cases value with
  | flag value => rfl
  | text value => rfl
  | number x =>
    obtain ⟨n, found, small⟩ := small x rfl
    have whole := Binary64.isWhole_of_toInt? found (by omega)
    rw [reread, Numeral.toBinary64?_ofBinary64 whole small]
    rfl

theorem clean_toDoc (whole : value.Whole) : value.toDoc.Clean := by
  cases value with
  | flag value => exact .bool value
  | text value => exact .text value
  | number x =>
    obtain ⟨n, whole⟩ := whole.isWhole
    rw [toDoc, if_pos whole.finite, Numeral.ofBinary64_eq whole]
    exact .number (Numeral.spelled_withPoint _ _)

theorem getProperty_toDoc (whole : value.Whole) (depth : Nat) :
    getProperty depth value.toDoc = .ok value.reread := by
  cases value with
  | flag value => rfl
  | text value => rfl
  | number x =>
    obtain ⟨n, whole⟩ := whole.isWhole
    have read := Numeral.value_ofBinary64 whole
    rw [toDoc, if_pos whole.finite, getProperty, survey, if_neg (by rw [read]; exact nofun)]
    simp only [reread, Numeral.toBinary64?, read]
    rfl

end PropertyValue

/-! ## Properties -/

namespace Properties

/-- Every key is held once, and the keys are in order. -/
def Sorted (properties : Properties) : Prop :=
  properties.entries.Pairwise fun entry later => entry.1 < later.1

/-- Properties are as the library keeps them, and their numbers are whole. -/
structure Storable (properties : Properties) : Prop where
  sorted : properties.Sorted
  whole : ∀ entry ∈ properties.entries, entry.2.Whole

/-- What is read from the stored form of properties. -/
def reread (properties : Properties) : Properties :=
  .ofList (properties.entries.map fun entry => (entry.1, entry.2.reread))

theorem insertEntry_append {key : String} (value : PropertyValue) {entries : List (String × PropertyValue)}
    (below : ∀ entry ∈ entries, entry.1 < key) :
    insertEntry key value entries = entries ++ [(key, value)] := by
  induction entries with
  | nil => rfl
  | cons entry entries ih =>
    have less := below entry List.mem_cons_self
    have other : entry.1 ≠ key := fun same => String.lt_irrefl key (same ▸ less)
    rw [insertEntry, if_neg other, if_neg (String.lt_asymm less),
      ih fun later there => below later (List.mem_cons_of_mem _ there), List.cons_append]

/-- Pairs that are in order are added one behind the other. -/
theorem foldl_insert_sorted {front rest : List (String × PropertyValue)}
    (sorted : (front ++ rest).Pairwise fun entry later => entry.1 < later.1) :
    rest.foldl (fun properties entry => properties.insert entry.1 entry.2) ⟨front⟩ =
      (⟨front ++ rest⟩ : Properties) := by
  induction rest generalizing front with
  | nil => rw [List.append_nil, List.foldl_nil]
  | cons entry rest ih =>
    have below : ∀ earlier ∈ front, earlier.1 < entry.1 := fun earlier there =>
      (List.pairwise_append.1 sorted).2.2 earlier there entry List.mem_cons_self
    rw [List.append_cons] at sorted
    rw [List.foldl_cons, insert, insertEntry_append _ below, ih sorted, ← List.append_cons]

/-- Pairs that are in order are kept as they are. -/
theorem ofList_sorted {entries : List (String × PropertyValue)}
    (sorted : entries.Pairwise fun entry later => entry.1 < later.1) : ofList entries = ⟨entries⟩ :=
  @foldl_insert_sorted [] entries sorted

/-- Properties come back as they were just where each of their values does. -/
theorem reread_eq_iff {properties : Properties} (sorted : properties.Sorted) :
    properties.reread = properties ↔ ∀ entry ∈ properties.entries, entry.2.reread = entry.2 := by
  obtain ⟨entries⟩ := properties
  have kept : (entries.map fun entry => (entry.1, entry.2.reread)).Pairwise
      fun entry later => entry.1 < later.1 := List.pairwise_map.2 sorted
  rw [reread, ofList_sorted kept, Properties.mk.injEq, map_eq_self_iff]
  exact forall₂_congr fun entry _ => ⟨congrArg Prod.snd, fun same => Prod.ext rfl same⟩

theorem clean_toDoc {properties : Properties} (storable : properties.Storable) :
    properties.toDoc.Clean := by
  refine .object fun member inside => ?_
  obtain ⟨entry, there, rfl⟩ := List.mem_map.1 inside
  exact PropertyValue.clean_toDoc (storable.whole entry there)

theorem getProperties_toDoc {properties : Properties} (storable : properties.Storable) (depth : Nat) :
    getProperties depth properties.toDoc = .ok properties.reread := by
  have read := getTable_ofMembers (getProperty depth) PropertyValue.toDoc PropertyValue.reread
    fun entry inside => PropertyValue.getProperty_toDoc (storable.whole entry inside) depth
  rw [getProperties, toDoc, read]
  rfl

end Properties

/-! ## Nodes and edges -/

/-- A natural number is a document made of values. -/
theorem Doc.Clean.nat (n : Nat) : (ofNat n).Clean := .number (Numeral.spelled_ofNat n)

/-- A node has a form in which it is stored: its line and column fit, and its numbers are whole. -/
structure Node.Storable (node : Node) : Prop where
  line : node.location.line ≤ maxStored
  column : node.location.column ≤ maxStored
  properties : node.properties.Storable

/-- What is read from the stored form of a node. -/
def Node.reread (node : Node) : Node := { node with properties := node.properties.reread }

theorem Location.clean_toDoc (location : Location) : location.toDoc.Clean := by
  refine .object ?_
  simp [Doc.Clean.nat, Doc.Clean.text]

theorem Location.getRecord_toDoc {location : Location} (line : location.line ≤ maxStored)
    (column : location.column ≤ maxStored) :
    getRecord Location.fields default location.toDoc = .ok location := by
  refine (getRecord_ofMembers Location.fields [ofText location.file.text,
    ofNat location.line, ofNat location.column] default (by decide) rfl).trans ?_
  simp only [readEach, Location.fields, List.zip_cons_cons, List.zip_nil_right, List.foldlM_cons,
    List.foldlM_nil, bind, Except.bind, getPath, getText_ofText, getNat_ofNat line (by decide),
    getNat_ofNat column (by decide), pure, Except.pure, Functor.map, Except.map]

theorem Node.clean_toDoc {node : Node} (storable : node.Storable) : node.toDoc.Clean := by
  have name : (node.name.elim null ofText).Clean := by
    cases node.name with
    | none => exact .null
    | some name => exact .text name
  refine .object ?_
  simp [Doc.Clean.text, name, Location.clean_toDoc, Properties.clean_toDoc storable.properties]

theorem Node.getRecord_toDoc {node : Node} (storable : node.Storable) :
    getRecord Node.fields default node.toDoc = .ok node.reread := by
  refine (getRecord_ofMembers Node.fields [ofText node.id, ofText node.kind.name,
    node.name.elim null ofText, node.location.toDoc, node.properties.toDoc] default (by decide)
    rfl).trans ?_
  simp only [readEach, Node.fields, List.zip_cons_cons, List.zip_nil_right, List.foldlM_cons,
    List.foldlM_nil, bind, Except.bind, getText_ofText, getName_ofText (NodeKind.ofName?_name _),
    getOption_ofText, Location.getRecord_toDoc storable.line storable.column,
    Properties.getProperties_toDoc storable.properties, pure, Except.pure]
  rfl

/-- An edge in its place has a form in which it is stored: its ends fit, and its numbers are whole. -/
structure Arc.Storable (arc : Arc) : Prop where
  source : arc.source ≤ maxStored
  target : arc.target ≤ maxStored
  ends : arc.edge.source = arc.source ∧ arc.edge.target = arc.target
  properties : arc.edge.properties.Storable

/-- What is read from the stored form of an edge. -/
def Edge.reread (edge : Edge) : Edge := { edge with properties := edge.properties.reread }

/-- What is read from the stored form of an edge in its place. -/
def Arc.reread (arc : Arc) : Arc := { arc with edge := arc.edge.reread }

theorem Arc.clean_toDoc {arc : Arc} (storable : arc.Storable) : arc.toDoc.Clean := by
  have edge : arc.edge.toDoc.Clean := by
    refine .object ?_
    simp [Doc.Clean.text, Doc.Clean.nat, Properties.clean_toDoc storable.properties]
  refine .array ?_
  simp [Doc.Clean.nat, edge]

theorem Arc.getArc_toDoc {arc : Arc} (storable : arc.Storable) : getArc arc.toDoc = .ok arc.reread := by
  have source : arc.edge.source ≤ maxStored := storable.ends.1 ▸ storable.source
  have target : arc.edge.target ≤ maxStored := storable.ends.2 ▸ storable.target
  have edge : getRecord Edge.fields default arc.edge.toDoc = .ok arc.edge.reread := by
    refine (getRecord_ofMembers Edge.fields [ofText arc.edge.id, ofText arc.edge.kind.name,
      ofNat arc.edge.source, ofNat arc.edge.target, arc.edge.properties.toDoc] default (by decide) rfl).trans ?_
    simp only [readEach, Edge.fields, List.zip_cons_cons, List.zip_nil_right, List.foldlM_cons,
      List.foldlM_nil, bind, Except.bind, getText_ofText, getName_ofText (EdgeKind.ofName?_name _),
      getNat_ofNat source (by decide), getNat_ofNat target (by decide),
      Properties.getProperties_toDoc storable.properties, pure, Except.pure]
    rfl
  simp only [Arc.toDoc, ofList, getArc, Arc.fields, readFields, bind, Except.bind,
    getNat_ofNat storable.source (by decide), getNat_ofNat storable.target (by decide), edge, pure,
    Except.pure, Ending.stop]
  rfl

/-! ## Indexes -/

theorem Graph.clean_indexDoc (index : Std.HashMap String Nat) : (indexDoc index).Clean := by
  refine .object fun member inside => ?_
  obtain ⟨entry, -, rfl⟩ := List.mem_map.1 inside
  exact .nat _

/-- An index that is built anew from its entries finds the same. -/
theorem getElem?_ofList_toList (index : Std.HashMap String Nat) (key : String) :
    (Std.HashMap.ofList index.toList)[key]? = index[key]? := by
  cases found : index[key]? with
  | some handle =>
    exact Std.HashMap.getElem?_ofList_of_mem (beq_self_eq_true key) Std.HashMap.distinct_keys_toList
      (Std.HashMap.mem_toList_iff_getElem?_eq_some.2 found)
  | none =>
    refine Std.HashMap.getElem?_ofList_of_contains_eq_false (Bool.eq_false_iff.2 fun there => ?_)
    obtain ⟨entry, inside, rfl⟩ := List.mem_map.1 (List.contains_iff_mem.1 there)
    rw [Std.HashMap.mem_toList_iff_getElem?_eq_some.1 inside] at found
    cases found

theorem Graph.getIndex_indexDoc {index : Std.HashMap String Nat}
    (fits : ∀ (key : String) (handle : Nat), index[key]? = some handle → handle ≤ maxStored) :
    getIndex (indexDoc index) = .ok (Std.HashMap.ofList index.toList) := by
  have each : ∀ entry ∈ index.toList, getNat maxStored (ofNat entry.2) = .ok (id entry.2) :=
    fun entry inside =>
      getNat_ofNat (fits _ _ (Std.HashMap.mem_toList_iff_getElem?_eq_some.1 inside)) (by decide)
  have read := getTable_ofMembers (getNat maxStored) ofNat id each
  rw [getIndex, indexDoc, read]
  refine congrArg (fun entries => Except.ok (Std.HashMap.ofList entries)) ?_
  exact List.map_id _

/-! ## Graphs -/

namespace Graph

/-- A graph has a form in which it is stored: its counts, lines and columns fit, its numbers are whole, and it
was made in a year of four digits. -/
structure Storable (graph : Graph) : Prop where
  nodeCount : graph.nodes.size ≤ maxStored
  edgeCount : graph.arcs.size ≤ maxStored
  nodes : ∀ node ∈ graph.nodes.toList, node.Storable
  edges : ∀ arc ∈ graph.arcs.toList, arc.edge.properties.Storable
  created : graph.created.Regular

/-- What is read from the text of a graph, but for the order of its indexes. -/
def reread (graph : Graph) : Graph :=
  { graph with nodes := graph.nodes.map Node.reread, arcs := graph.arcs.map Arc.reread }

variable {graph : Graph}

/-- The ends of an edge are handles of the graph, so they can be stored. -/
theorem Storable.arc (storable : graph.Storable) (formed : graph.WellFormed) {arc : Arc}
    (inside : arc ∈ graph.arcs.toList) :
    arc.Storable ∧ arc.source < graph.nodes.size ∧ arc.target < graph.nodes.size := by
  obtain ⟨handle, found⟩ := List.getElem?_of_mem inside
  rw [Array.getElem?_toList] at found
  obtain ⟨source, target, -, left, right, -⟩ := formed.named handle arc found
  have low := (Array.getElem?_eq_some_iff.1 left).1
  have low' := (Array.getElem?_eq_some_iff.1 right).1
  have fits := storable.nodeCount
  exact ⟨⟨by omega, by omega, formed.ends handle arc found, storable.edges arc inside⟩, low, low'⟩

theorem clean_toDoc (storable : graph.Storable) (formed : graph.WellFormed) : graph.toDoc.Clean := by
  have nodes : (ofList (graph.nodes.toList.map Node.toDoc)).Clean := by
    refine .array fun item inside => ?_
    obtain ⟨node, there, rfl⟩ := List.mem_map.1 inside
    exact node.clean_toDoc (storable.nodes node there)
  have edges : (ofList (graph.arcs.toList.map Arc.toDoc)).Clean := by
    refine .array fun item inside => ?_
    obtain ⟨arc, there, rfl⟩ := List.mem_map.1 inside
    exact arc.clean_toDoc (storable.arc formed there).1
  have body : graph.bodyDoc.Clean := by
    refine .object ?_
    simp [nodes, edges, Doc.Clean.text, Doc.Clean.array]
  have metadata : graph.metadataDoc.Clean := by
    refine .object ?_
    simp [Doc.Clean.text, Doc.Clean.array]
  refine .object ?_
  simp [body, metadata, clean_indexDoc]

theorem getBody_bodyDoc (storable : graph.Storable) (formed : graph.WellFormed) (start : Graph) :
    getBody graph.bodyDoc start =
      .ok { start with nodes := graph.reread.nodes, arcs := graph.reread.arcs } := by
  have nodes := getList_ofList (getRecord Node.fields default) Node.toDoc Node.reread fun node inside =>
    Node.getRecord_toDoc (storable.nodes node inside)
  have edges := getList_ofList getArc Arc.toDoc Arc.reread fun arc inside =>
    Arc.getArc_toDoc (storable.arc formed inside).1
  have read : getRecord GraphBody.fields {} graph.bodyDoc =
      .ok ⟨graph.nodes.toList.map Node.reread, graph.arcs.toList.map Arc.reread, true⟩ := by
    refine (getRecord_ofMembers GraphBody.fields [
      ofList (graph.nodes.toList.map Node.toDoc), ofList [], Doc.ofText directedName,
      ofList (graph.arcs.toList.map Arc.toDoc)] {} (by decide) rfl).trans ?_
    have directed : directedOfName? directedName = some true := by decide
    have none : getNone (ofList []) = .ok () := rfl
    simp only [readEach, GraphBody.fields, List.zip_cons_cons, List.zip_nil_right, List.foldlM_cons,
      List.foldlM_nil, bind, Except.bind, nodes, edges, none, getName_ofText directed, pure, Except.pure]
  have ends : ((graph.arcs.toList.map Arc.reread).all fun arc =>
      decide (arc.source < graph.nodes.toList.length) &&
        decide (arc.target < graph.nodes.toList.length)) = true := by
    rw [List.all_map]
    refine List.all_eq_true.2 fun arc inside => ?_
    obtain ⟨-, source, target⟩ := storable.arc formed inside
    simp [Arc.reread, source, target]
  have array {α β : Type} (items : Array α) (f : α → β) : (items.toList.map f).toArray = items.map f := by
    rw [← List.map_toArray, Array.toArray_toList]
  unfold getBody
  simp only [read, bind, Except.bind, List.length_map, ends, Bool.and_self, if_true, pure, Except.pure,
    reread, array]

theorem getRecord_metadataDoc (storable : graph.Storable) (start : Graph) :
    getRecord metadataFields start graph.metadataDoc =
      .ok { start with files := graph.files, language := graph.language, created := graph.created } := by
  have files : getList getPath (ofList (graph.files.map fun file => Doc.ofText file.text)) =
      .ok graph.files := by
    have each : ∀ file ∈ graph.files, getPath (Doc.ofText file.text) = .ok (id file) := fun _ _ => rfl
    have read := getList_ofList getPath (fun file : Path => Doc.ofText file.text) id each
    rwa [List.map_id] at read
  have created : getInstant (Doc.ofText graph.created.text) = .ok graph.created := by
    simp only [getInstant, getText_ofText, bind, Except.bind, Instant.ofText?_text storable.created, pure,
      Except.pure]
  refine (getRecord_ofMembers metadataFields [
    ofList (graph.files.map fun file => Doc.ofText file.text), Doc.ofText graph.language,
    Doc.ofText graph.created.text] start (by decide) rfl).trans ?_
  simp only [readEach, metadataFields, List.zip_cons_cons, List.zip_nil_right, List.foldlM_cons,
    List.foldlM_nil, bind, Except.bind, files, getText_ofText, created, pure, Except.pure]

/-- What is read from the text of a graph holds the graph with its numbers as they are read. -/
theorem ofText_toText_eq (storable : graph.Storable) (formed : graph.WellFormed) :
    ofText graph.toText = .ok { graph.reread with
      nodeIndex := .ofList graph.nodeIndex.toList, edgeIndex := .ofList graph.edgeIndex.toList } := by
  have nodes : getIndex (indexDoc graph.nodeIndex) = .ok (.ofList graph.nodeIndex.toList) :=
    getIndex_indexDoc fun key handle found => by
      obtain ⟨node, there, -⟩ := (formed.nodes_indexed key handle).1 found
      have := (Array.getElem?_eq_some_iff.1 there).1
      have := storable.nodeCount
      omega
  have edges : getIndex (indexDoc graph.edgeIndex) = .ok (.ofList graph.edgeIndex.toList) :=
    getIndex_indexDoc fun key handle found => by
      obtain ⟨arc, there, -⟩ := (formed.edges_indexed key handle).1 found
      have := (Array.getElem?_eq_some_iff.1 there).1
      have := storable.edgeCount
      omega
  rw [ofText, toText, (clean_toDoc storable formed).decode_toText]
  refine (getRecord_ofMembers Graph.fields [graph.bodyDoc, indexDoc graph.nodeIndex,
    indexDoc graph.edgeIndex, graph.metadataDoc] empty (by decide) rfl).trans ?_
  simp only [readEach, Graph.fields, List.zip_cons_cons, List.zip_nil_right, List.foldlM_cons,
    List.foldlM_nil, bind, Except.bind, getBody_bodyDoc storable formed, nodes, edges,
    getRecord_metadataDoc storable, pure, Except.pure, reread]

/-- The values of all properties of a graph. -/
def values (graph : Graph) : List PropertyValue :=
  graph.nodes.toList.flatMap (fun node => node.properties.entries.map Prod.snd) ++
    graph.arcs.toList.flatMap fun arc => arc.edge.properties.entries.map Prod.snd

theorem reread_eq_of_parts (nodes : graph.reread.nodes = graph.nodes)
    (arcs : graph.reread.arcs = graph.arcs) : graph.reread = graph := by
  simp only [reread] at nodes arcs
  rw [reread, nodes, arcs]

/-- A graph comes back as it was just where each of its values does. -/
theorem reread_eq_iff (storable : graph.Storable) :
    graph.reread = graph ↔ ∀ value ∈ graph.values, value.reread = value := by
  have nodes : graph.reread.nodes = graph.nodes ↔ ∀ node ∈ graph.nodes.toList,
      ∀ entry ∈ node.properties.entries, entry.2.reread = entry.2 := by
    rw [reread, ← Array.toList_inj, Array.toList_map, map_eq_self_iff]
    refine forall₂_congr fun node inside => ?_
    rw [← Properties.reread_eq_iff (storable.nodes node inside).properties.sorted]
    exact ⟨congrArg Node.properties, fun same => by rw [Node.reread, same]⟩
  have edges : graph.reread.arcs = graph.arcs ↔ ∀ arc ∈ graph.arcs.toList,
      ∀ entry ∈ arc.edge.properties.entries, entry.2.reread = entry.2 := by
    rw [reread, ← Array.toList_inj, Array.toList_map, map_eq_self_iff]
    refine forall₂_congr fun arc inside => ?_
    rw [← Properties.reread_eq_iff (storable.edges arc inside).sorted]
    exact ⟨congrArg fun arc : Arc => arc.edge.properties, fun same => by rw [Arc.reread, Edge.reread, same]⟩
  have parts : graph.reread = graph ↔ graph.reread.nodes = graph.nodes ∧ graph.reread.arcs = graph.arcs :=
    ⟨fun same => ⟨congrArg Graph.nodes same, congrArg Graph.arcs same⟩,
      fun same => reread_eq_of_parts same.1 same.2⟩
  rw [parts, nodes, edges, values, List.forall_mem_append]
  simp only [List.forall_mem_flatMap, List.forall_mem_map]

/-- What a graph that has been reached is read back as: the graph with its numbers as they are read, that is
the graph itself, in all its answers now and after any operations, just where each number is read as what
was written. Whole numbers up to a tenth of `2 ^ 54` are. -/
theorem Reached.ofText_toText (reached : graph.Reached) (storable : graph.Storable) :
    ∃ back, ofText graph.toText = .ok back ∧ back.Mirrors graph.reread ∧
      (back.Mirrors graph ↔ ∀ value ∈ graph.values, value.reread = value) ∧
      ((∀ x, .number x ∈ graph.values → ∃ n : Int, x.toInt? = some n ∧ n.natAbs ≤ 2 ^ 54 / 10) →
        ∀ operations : List Operation, (operations.foldl Operation.apply back).SameAnswers
          (operations.foldl Operation.apply graph)) := by
  have read := ofText_toText_eq storable reached.wellFormed
  have whole := reread_eq_iff storable
  have mirrors : Mirrors { graph.reread with
      nodeIndex := .ofList graph.nodeIndex.toList, edgeIndex := .ofList graph.edgeIndex.toList }
      graph.reread :=
    ⟨⟨rfl, rfl, getElem?_ofList_toList _, getElem?_ofList_toList _, rfl, rfl, rfl⟩, rfl⟩
  -- From here on only the agreement of the indexes matters, not how they were built.
  generalize Graph.mk _ _ _ _ _ _ _ = back at read mirrors
  refine ⟨back, read, mirrors, ⟨fun same => ?_, fun same => whole.2 same ▸ mirrors⟩,
    fun small operations => ?_⟩
  · exact whole.1 (reread_eq_of_parts (mirrors.nodes.symm.trans same.nodes)
      (mirrors.arcs.symm.trans same.arcs))
  · have same : graph.reread = graph := whole.2 fun value inside =>
      PropertyValue.reread_eq_self fun x number => by
        obtain ⟨n, found, bound⟩ := small x (number ▸ inside)
        exact ⟨n, found, by omega⟩
    rw [same] at mirrors
    exact (mirrors.applyAll operations).sameAnswers

/-! ## A graph with a count -/

/-- A function with a count, in a graph made in a leap second. -/
def counting (count : Nat) : Graph :=
  let function := Node.ofLocation .func (some "f") ⟨⟨"a.ts"⟩, 1, 1⟩
  let graph := Operation.apply (empty.stamped ⟨1483228799, 1500000000⟩) (.addNode function)
  Operation.apply graph (.setProperty 0 "count" (.ofNat count))

theorem reached_counting (count : Nat) : (counting count).Reached := by
  unfold counting
  refine .step _ (.step _ (.start _) ?_) ?_ <;>
  · intro other same
    cases same

theorem nodes_counting (count : Nat) : (counting count).nodes =
    #[(Node.ofLocation .func (some "f") ⟨⟨"a.ts"⟩, 1, 1⟩).set "count" (.ofNat count)] := by
  simp [counting, Operation.apply, Graph.setProperty, Graph.addNode, empty, stamped]

theorem arcs_counting (count : Nat) : (counting count).arcs = #[] := by
  simp [counting, Operation.apply, Graph.setProperty, Graph.addNode, empty, stamped]

theorem values_counting (count : Nat) : (counting count).values = [.ofNat count] := by
  rw [values, nodes_counting, arcs_counting]
  rfl

theorem storable_counting (count : Nat) (small : count < 2 ^ 53) : (counting count).Storable where
  nodeCount := by
    have one : 1 ≤ maxStored := by decide
    rwa [nodes_counting]
  edgeCount := by rw [arcs_counting]; exact Nat.zero_le _
  nodes := by
    rw [nodes_counting]
    have one : 1 ≤ maxStored := by decide
    refine List.forall_mem_singleton.2 ⟨one, one, List.pairwise_singleton _ _, ?_⟩
    refine List.forall_mem_singleton.2 fun x same => ?_
    obtain rfl := PropertyValue.number.inj same
    exact ⟨count, Binary64.toInt?_ofNat small, small⟩
  edges := by
    rw [arcs_counting]
    exact fun _ none => nomatch none
  created := by
    have created : (counting count).created = ⟨1483228799, 1500000000⟩ := by
      simp [counting, Operation.apply, Graph.setProperty, Graph.addNode, empty, stamped]
    rw [created]
    exact ⟨by decide +kernel, .inr (by decide)⟩

/-- The largest count up to which all counts are kept. -/
theorem kept_counting : (counting 1801439850948198).Reached ∧ (counting 1801439850948198).Storable ∧
    ∃ back, ofText (counting 1801439850948198).toText = .ok back ∧
      back.SameAnswers (counting 1801439850948198) := by
  have reached := reached_counting 1801439850948198
  have storable := storable_counting 1801439850948198 (by decide)
  obtain ⟨back, read, -, -, answers⟩ := reached.ofText_toText storable
  refine ⟨reached, storable, back, read, answers (fun x inside => ?_) []⟩
  rw [values_counting, List.mem_singleton] at inside
  obtain rfl := PropertyValue.number.inj inside
  exact ⟨_, Binary64.toInt?_ofNat (by decide), by decide⟩

/-- The next count comes back as another number. -/
theorem changed_counting : (counting 1801439850948199).Reached ∧ (counting 1801439850948199).Storable ∧
    ¬ ∃ back, ofText (counting 1801439850948199).toText = .ok back ∧
      back.nodes = (counting 1801439850948199).nodes := by
  have reached := reached_counting 1801439850948199
  have storable := storable_counting 1801439850948199 (by decide)
  refine ⟨reached, storable, ?_⟩
  rintro ⟨back, read, same⟩
  rw [ofText_toText_eq storable reached.wellFormed] at read
  obtain rfl := Except.ok.inj read
  have arcs : (counting 1801439850948199).reread.arcs = (counting 1801439850948199).arcs := by
    simp only [reread, arcs_counting, List.map_toArray, List.map_nil]
  have kept := (reread_eq_iff storable).1 (reread_eq_of_parts same arcs) _
    (by rw [values_counting]; exact List.mem_singleton_self _)
  -- Its tenfold lies above `2 ^ 54`, between two floating-point numbers, and is rounded before it is divided.
  revert kept
  rw [PropertyValue.ofNat, PropertyValue.reread, Numeral.toBinary64?,
    Numeral.value_ofBinary64 (Binary64.isWhole_ofNat (by decide))]
  decide +kernel

end Graph

end CodeGraph

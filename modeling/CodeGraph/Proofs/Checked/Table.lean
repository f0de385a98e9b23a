import CodeGraph.Checked.Table
import CodeGraph.Proofs.Graph.EdgeId
import CodeGraph.Proofs.Graph.Reached
import CodeGraph.Proofs.Halts
import CodeGraph.Proofs.Scope

/-!
# Tables that hold what they are asked for

When the definitions that look numbers up give what those give that do not: a number below the size of
its table does not end them. Names can be looked up from every scope of the table, since parents are
older (`Checked.search_eq`); connections can be added between nodes of the graph
(`Checked.connectAll_eq`); and a well-formed graph can be added to another one (`Checked.absorb_eq`). A
loop whose steps come by no number without an entry ends as the loop does that does not look
(`Checked.halts_loop`).
-/

namespace CodeGraph

namespace Checked

variable {Item State Result : Type}

/-! ## Doing one thing after another -/

/-- What comes after a result goes on with the result. -/
theorem bind_eq {first : Except Missing Item} {item : Item} {further : Item → Except Missing Result}
    {result : Result} (done : first = .ok item) (whole : further item = .ok result) :
    (first >>= further) = .ok result := by
  rw [done]
  exact whole

/-- Going through a list gives what it gives without looking, if every item does where something holds
that the items keep. -/
theorem foldlM_eq {step : State → Item → Except Missing State} {plain : State → Item → State}
    {items : List Item} (Holds : State → Prop)
    (each : ∀ item ∈ items, ∀ state, Holds state →
      step state item = .ok (plain state item) ∧ Holds (plain state item))
    {start : State} (begun : Holds start) :
    items.foldlM step start = .ok (items.foldl plain start) := by
  induction items generalizing start with
  | nil => rfl
  | cons item rest ih =>
    obtain ⟨done, kept⟩ := each item List.mem_cons_self start begun
    rw [List.foldlM_cons]
    exact bind_eq done (ih (fun other there => each other (List.mem_cons_of_mem _ there)) kept)

theorem mapM_eq {find : Item → Except Missing Result} {plain : Item → Result} {items : List Item}
    (each : ∀ item ∈ items, find item = .ok (plain item)) :
    items.mapM find = .ok (items.map plain) := by
  induction items with
  | nil => rfl
  | cons item rest ih =>
    rw [List.mapM_cons]
    exact bind_eq (each item List.mem_cons_self)
      (bind_eq (ih fun other there => each other (List.mem_cons_of_mem _ there)) rfl)

theorem forM_eq {look : Item → Except Missing PUnit} {items : List Item}
    (each : ∀ item ∈ items, look item = .ok ()) : items.forM look = .ok () := by
  induction items with
  | nil => rfl
  | cons item rest ih =>
    exact bind_eq (each item List.mem_cons_self)
      (ih fun other there => each other (List.mem_cons_of_mem _ there))

/-- A loop ends where it ends without looking, if every step does where something holds that the steps
keep. -/
theorem halts_loop {step : State → Except Missing (Option State)} {plain : State → Option State}
    {start last : State} (halts : Halts plain start last) (Holds : State → Prop)
    (each : ∀ state, Holds state → step state = .ok (plain state))
    (kept : ∀ state next, Holds state → plain state = some next → Holds next)
    (begun : Holds start) : Halts (loop step) (.ok start) (.ok last) := by
  induction halts with
  | ended stop =>
    refine .ended ?_
    rw [loop, each _ begun, stop]
  | next taken _ ih =>
    refine .next ?_ (ih (kept _ _ begun taken))
    rw [loop, each _ begun, taken]

/-! ## Entries -/

theorem entry_eq (table : Table) {items : Array Item} {number : Nat} {item : Item}
    (found : items[number]? = some item) : entry table items number = .ok item := by
  rw [entry, found]

/-- A look-up ends with the numbers that are beyond the table, and with no others. -/
theorem entry_eq_error_iff {table : Table} {items : Array Item} {number : Nat} {missing : Missing} :
    entry table items number = .error missing ↔
      items.size ≤ number ∧ missing = ⟨table, number⟩ := by
  unfold entry
  cases found : items[number]? with
  | none => simp [Array.getElem?_eq_none_iff.1 found, eq_comm]
  | some item => simp [(Array.getElem?_eq_some_iff.1 found).1]

theorem require_eq (table : Table) {items : Array Item} {number : Nat}
    (there : number < items.size) : require table items number = .ok () := by
  rw [require, entry_eq table (Array.getElem?_eq_getElem there)]
  rfl

theorem require?_eq (table : Table) {items : Array Item} {number : Option Nat}
    (there : ∀ given, number = some given → given < items.size) :
    require? table items number = .ok () := by
  cases number with
  | none => rfl
  | some given => exact require_eq table (there given rfl)

/-! ## Scopes -/

section Scopes

variable {scopes : Scopes} {id : Nat}

theorem search_eq (answer : Nat → Scope → Option Item) (there : id < scopes.list.size) :
    search scopes answer id = .ok (scopes.search answer id) := by
  induction id using Nat.strongRecOn with
  | ind id ih =>
    have held := Array.getElem?_eq_getElem there
    rw [Scopes.search_eq answer held, search]
    split
    · next missing =>
      rw [missing] at held
      cases held
    · next scope found =>
      obtain rfl := Option.some.inj (found.symm.trans held)
      split
      · next answered =>
        rw [answered]
        rfl
      · next unanswered =>
        rw [unanswered, Option.none_or]
        split
        · next named =>
          rw [named]
          rfl
        · next parent named =>
          have less := scopes.parent_lt id _ parent held named
          rw [ih parent less (Nat.lt_trans less there), named]
          rfl

theorem resolveVariable_eq (there : id < scopes.list.size) (name : String) :
    resolveVariable scopes id name = .ok (scopes.resolveVariable id name) :=
  search_eq _ there

theorem resolveFunction_eq (there : id < scopes.list.size) (name : String) :
    resolveFunction scopes id name = .ok (scopes.resolveFunction id name) :=
  search_eq _ there

theorem hoistTarget_eq (there : id < scopes.list.size) :
    hoistTarget scopes id = .ok (scopes.hoistTarget id) :=
  bind_eq (search_eq _ there) rfl

theorem declareVariable_eq (there : id < scopes.list.size) (name : String) (node : Nat) :
    declareVariable scopes id name node = .ok (scopes.declareVariable id name node) :=
  bind_eq (require_eq .scopes there) rfl

theorem declareFunction_eq (there : id < scopes.list.size) (name : String) (node : Nat) :
    declareFunction scopes id name node = .ok (scopes.declareFunction id name node) :=
  bind_eq (require_eq .scopes there) rfl

end Scopes

/-! ## Graphs -/

section Graphs

variable {graph other : Graph}

theorem connect_eq {connection : Connection} (joins : graph.Joins connection) :
    connect graph connection = .ok (graph.connect connection) := by
  unfold connect Graph.connect Graph.withEdge Graph.addEdge
  rw [Array.getElem?_eq_getElem joins.1, Array.getElem?_eq_getElem joins.2]

theorem connectAll_eq {connections : List Connection}
    (joins : ∀ connection ∈ connections, graph.Joins connection) :
    connectAll graph connections = .ok (graph.connectAll connections) := by
  refine foldlM_eq (fun state => state.nodes = graph.nodes) (fun connection inside state same => ?_)
    rfl
  have joined := (joins connection inside).of_size (congrArg Array.size same)
  exact ⟨connect_eq joined, (Graph.nodes_withEdge _ _ _ _ _ _).trans same⟩

/-- An arc can be added once both its ends have been. -/
theorem addRenamed_eq {names : Array Nat} (renames : graph.Renames names other.nodes.toList)
    {arc : Arc} (left : arc.source < other.nodes.size) (right : arc.target < other.nodes.size) :
    addRenamed names graph arc = .ok (graph.addRenamed names arc) := by
  have named : ∀ place < other.nodes.size, ∃ handle, names[place]? = some handle ∧
      handle < graph.nodes.size := by
    intro place there
    obtain ⟨handle, held, named, found, -⟩ := renames.2 place other.nodes[place] (by simp)
    exact ⟨handle, named, (Array.getElem?_eq_some_iff.1 found).1⟩
  obtain ⟨source, sourceNamed, sourceThere⟩ := named arc.source left
  obtain ⟨target, targetNamed, targetThere⟩ := named arc.target right
  have plain : graph.addRenamed names arc =
      (graph.addArc { arc.edge with source, target }).1 := by
    rw [Graph.addRenamed, sourceNamed, targetNamed]
  rw [plain]
  exact bind_eq (entry_eq .renamed sourceNamed) (bind_eq (entry_eq .renamed targetNamed)
    (bind_eq (require_eq .nodes sourceThere) (bind_eq (require_eq .nodes targetThere) rfl)))

theorem absorb_eq (formed : graph.WellFormed) (otherFormed : other.WellFormed) :
    absorb graph other = .ok (graph.absorb other).1 := by
  obtain ⟨united, -, renames⟩ := Graph.renames_addAll formed other.nodes
  have joined : other.arcs.toList.foldlM (addRenamed (graph.addAll other.nodes).2)
      (graph.addAll other.nodes).1 = .ok (other.arcs.toList.foldl
        (fun state arc => state.addRenamed (graph.addAll other.nodes).2 arc)
        (graph.addAll other.nodes).1) := by
    refine foldlM_eq (fun state => state.WellFormed ∧
      state.Renames (graph.addAll other.nodes).2 other.nodes.toList)
      (fun arc inside state ⟨whole, table⟩ => ?_) ⟨united, renames⟩
    obtain ⟨place, held⟩ := Array.getElem?_of_mem (Array.mem_toList_iff.1 inside)
    obtain ⟨source, target, -, left, right, -⟩ := otherFormed.named place arc held
    obtain ⟨whole', kept⟩ := whole.addRenamed otherFormed table held
    exact ⟨addRenamed_eq table (Array.getElem?_eq_some_iff.1 left).1
      (Array.getElem?_eq_some_iff.1 right).1, whole', table.kept kept⟩
  have plain : (graph.absorb other).1 = other.files.foldl Graph.addFile (other.arcs.toList.foldl
      (fun state arc => state.addRenamed (graph.addAll other.nodes).2 arc)
      (graph.addAll other.nodes).1) := by
    rw [Array.foldl_toList]
    rfl
  rw [plain]
  exact bind_eq joined rfl

end Graphs

end Checked

end CodeGraph

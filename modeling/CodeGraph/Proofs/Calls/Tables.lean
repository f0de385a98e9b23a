import CodeGraph.Build
import CodeGraph.Proofs.Calls.Target
import CodeGraph.Proofs.Graph.WellFormed

/-!
# What linking reads off a graph

Linking collects functions by name, parameters, returning sites and unresolved calls in one pass over the
nodes. Here each of the tables is described by a relation on the graph that is stated without them:
free functions, methods, constructors (`Graph.FreeFunction`, `Graph.Method`, `Graph.Constructor`),
parameters (`Graph.ParamOf`), returning sites (`Graph.ReturnSite`) and unresolved calls
(`Graph.Pending`). A call is linked to what it aims at (`Graph.Aims`), by the connections of
`Graph.Links`; these are the connections of `Graph.linkedCalls` and no others
(`Graph.mem_edges_linkedCalls`).
-/

namespace CodeGraph

theorem Listing.mem_getD_add {α β : Type} [BEq α] [Hashable α] [LawfulBEq α] [LawfulHashable α]
    (listing : Listing α β) (key other : α) (item found : β) :
    found ∈ (listing.add key item).getD other [] ↔
      found ∈ listing.getD other [] ∨ key = other ∧ found = item := by
  rw [Listing.add, Std.HashMap.getD_insert]
  by_cases same : key = other
  · subst same
    simp
  · simp [same]

/-- What a fold lists is what it listed at first and what the items note. -/
theorem mem_foldl_notes {σ ι α γ : Type} {read : σ → α → List γ} {step : σ → ι → σ}
    {notes : ι → α → γ → Prop}
    (each : ∀ state item key found, found ∈ read (step state item) key ↔
      found ∈ read state key ∨ notes item key found)
    (items : List ι) (state : σ) (key : α) (found : γ) :
    found ∈ read (items.foldl step state) key ↔
      found ∈ read state key ∨ ∃ item ∈ items, notes item key found := by
  induction items generalizing state with
  | nil => simp
  | cons item rest ih => rw [List.foldl_cons, ih, each, or_assoc, List.exists_mem_cons_iff]

namespace Graph

variable (graph : Graph)

/-! ## The relations -/

/-- `graph.ClassAbove handle owner`: the node that contains a node is the class `owner`. -/
def ClassAbove (handle : Nat) (owner : Node) : Prop :=
  ∃ parent, graph.parent? handle = some parent ∧ graph.nodes[parent]? = some owner ∧
    owner.kind = .cls

/-- A node is a function of a name. -/
def FunctionNamed (handle : Nat) (name : String) : Prop :=
  ∃ node, graph.nodes[handle]? = some node ∧ node.kind = .func ∧ node.name = some name

/-- A function of a name that is no method: no class contains it, and it is not marked as one. -/
def FreeFunction (handle : Nat) (name : String) : Prop :=
  graph.FunctionNamed handle name ∧ (¬ ∃ owner, graph.ClassAbove handle owner) ∧
    ∃ node, graph.nodes[handle]? = some node ∧ node.properties.isSet "isMethod" = false

/-- A function of a name that a class contains. -/
def Method (handle : Nat) (name : String) : Prop :=
  graph.FunctionNamed handle name ∧ ∃ owner, graph.ClassAbove handle owner

/-- A constructor of a class of a name. -/
def Constructor (handle : Nat) (className : String) : Prop :=
  graph.FunctionNamed handle "constructor" ∧
    ∃ owner, graph.ClassAbove handle owner ∧ owner.name = some className

/-- A parameter that a function contains, at a position. -/
def ParamOf (function position param : Nat) : Prop :=
  ∃ node number, graph.nodes[param]? = some node ∧ node.kind = .param ∧
    graph.parent? param = some function ∧ node.properties.number? "index" = some number ∧
    position = number.toCount

/-- A site at which a function returns: a return statement that the function is the nearest one around,
or an expression that the function contains. -/
def ReturnSite (function site : Nat) : Prop :=
  ∃ node, graph.nodes[site]? = some node ∧
    (node.kind = .stmt ∧ node.properties.text? "kind" = some "return_statement" ∧
        graph.enclosingFunction? site = some function ∨
      node.kind = .expr ∧ graph.parent? site = some function ∧
        graph.hasKind function .func = true)

/-- A call that reaches nothing yet. -/
def Pending (handle : Nat) (node : Node) : Prop :=
  graph.nodes[handle]? = some node ∧ node.kind = .call ∧
    node.properties.flag? "resolved" = some false

/-- The functions that a call aims at, by its short name and its form. -/
def Aims (call : Node) (target : Nat) : Prop :=
  ∃ name, call.properties.text? "callee" = some name ∧
    if call.properties.isSet "isConstructor" then graph.Constructor target name
    else if call.properties.isSet "isMethodCall" then graph.Method target name
    else graph.FreeFunction target name

/-- The connections between a call and a function that it aims at.

* `call`: the nearest function around the call calls the target, on the line of the call.
* `result`: a call whose value is used gets the result of the target.
* `returned`: it gets that from each site at which the target returns.
* `argument`: an argument goes to the parameter whose position it fills. -/
inductive Links (handle : Nat) (call : Node) (target : Nat) : Connection → Prop
  | call {caller : Nat} : graph.enclosingFunction? handle = some caller →
      Links handle call target
        { source := caller, target, kind := .call
          properties := Properties.empty.insert "line" (.ofNat call.location.line) }
  | result : call.properties.isSet "consumed" = true →
      Links handle call target { source := target, target := handle, kind := .result }
  | returned {site : Nat} : call.properties.isSet "consumed" = true → graph.ReturnSite target site →
      Links handle call target
        { source := site, target := handle, kind := .flow, tag := some "return"
          properties := Properties.empty.insert "via" (.text "return") }
  | argument {position param : Nat} {count : Binary64} : graph.ParamOf target position param →
      call.properties.number? "argCount" = some count → position < count.toCount →
      Links handle call target
        { source := handle, target := param, kind := .flow, tag := some (graph.nameOf param)
          properties := (Properties.empty.insert "via" (.text "argument")).insert
            "variable" (.text (graph.nameOf param)) }

/-- A call that linking resolves. -/
def Linked (handle : Nat) (node : Node) : Prop :=
  graph.Pending handle node ∧ ∃ target, graph.Aims node target

/-! ## Entering a node -/

end Graph

namespace LinkTables

variable (graph : Graph) (tables : LinkTables) (parent : Option Nat) (handle : Nat) (node : Node)

theorem addFunction_eq : tables.addFunction graph parent handle node =
    { tables with
      free := (tables.addFunction graph parent handle node).free
      methods := (tables.addFunction graph parent handle node).methods
      constructors := (tables.addFunction graph parent handle node).constructors } := by
  unfold addFunction
  split
  · rfl
  · split
    · simp only
      split
      · split <;> rfl
      · rfl
    · split <;> rfl

theorem addParam_eq : tables.addParam parent handle node =
    { tables with params := (tables.addParam parent handle node).params } := by
  unfold addParam
  split <;> rfl

theorem addReturn_eq (function : Option Nat) : tables.addReturn function handle =
    { tables with returns := (tables.addReturn function handle).returns } := by
  unfold addReturn
  split <;> rfl

section Function

variable {graph tables parent handle node} {own : String}

theorem addFunction_of_unnamed (unnamed : node.name = none) :
    tables.addFunction graph parent handle node = tables := by
  rw [addFunction, unnamed]

/-- A function in a class is entered as a method, and as a constructor by the name of the class. -/
theorem addFunction_of_class (named : node.name = some own) {owner : Node}
    (above : parent.bind graph.node? = some owner) (cls : owner.kind = .cls) :
    tables.addFunction graph parent handle node =
      { tables with
        methods := tables.methods.add own handle
        constructors := if own = "constructor" then
            (owner.name.map fun className => tables.constructors.add className handle).getD
              tables.constructors
          else tables.constructors } := by
  simp only [addFunction, named, above, Option.filter_some, cls, beq_self_eq_true, if_true]
  cases owner.name with
  | none => simp
  | some className =>
    simp only [Option.map_some, Option.getD_some]
    split <;> rfl

/-- A function outside classes is entered as a free one, unless it is a method. -/
theorem addFunction_of_free (named : node.name = some own)
    (apart : ∀ owner, parent.bind graph.node? = some owner → owner.kind ≠ .cls) :
    tables.addFunction graph parent handle node =
      if node.properties.isSet "isMethod" then tables
      else { tables with free := tables.free.add own handle } := by
  have none : (parent.bind graph.node?).filter (fun owner => owner.kind == .cls) = none := by
    rw [Option.filter_eq_none_iff]
    exact fun owner above => by simpa using apart owner above
  simp only [addFunction, named, none]

end Function

/-- A node stands in a class, or there is no class above it. -/
theorem class_or_apart : (∃ owner, parent.bind graph.node? = some owner ∧ owner.kind = .cls) ∨
    ∀ owner, parent.bind graph.node? = some owner → owner.kind ≠ .cls := by
  by_cases inside : ∃ owner, parent.bind graph.node? = some owner ∧ owner.kind = .cls
  · exact .inl inside
  · exact .inr fun owner above cls => inside ⟨owner, above, cls⟩

theorem mem_free_addFunction (name : String) (found : Nat) :
    found ∈ (tables.addFunction graph parent handle node).free.getD name [] ↔
      found ∈ tables.free.getD name [] ∨ node.name = some name ∧ found = handle ∧
        (∀ owner, parent.bind graph.node? = some owner → owner.kind ≠ .cls) ∧
        node.properties.isSet "isMethod" = false := by
  cases named : node.name with
  | none => simp [addFunction_of_unnamed named]
  | some own =>
    rcases class_or_apart graph parent with ⟨owner, above, cls⟩ | apart
    · simp [addFunction_of_class named above cls, above, cls]
    · rw [addFunction_of_free named apart]
      cases node.properties.isSet "isMethod" with
      | true => simp
      | false =>
        simp only [Bool.false_eq_true, if_false, Listing.mem_getD_add, Option.some.injEq, and_true]
        exact or_congr Iff.rfl (and_congr Iff.rfl (and_iff_left apart).symm)

theorem mem_methods_addFunction (name : String) (found : Nat) :
    found ∈ (tables.addFunction graph parent handle node).methods.getD name [] ↔
      found ∈ tables.methods.getD name [] ∨ node.name = some name ∧ found = handle ∧
        ∃ owner, parent.bind graph.node? = some owner ∧ owner.kind = .cls := by
  cases named : node.name with
  | none => simp [addFunction_of_unnamed named]
  | some own =>
    rcases class_or_apart graph parent with ⟨owner, above, cls⟩ | apart
    · simp [addFunction_of_class named above cls, Listing.mem_getD_add, above, cls]
    · have none : ¬ ∃ owner, parent.bind graph.node? = some owner ∧ owner.kind = .cls :=
        fun ⟨owner, above, cls⟩ => apart owner above cls
      rw [addFunction_of_free named apart]
      split <;> simp [none]

theorem mem_constructors_addFunction (className : String) (found : Nat) :
    found ∈ (tables.addFunction graph parent handle node).constructors.getD className [] ↔
      found ∈ tables.constructors.getD className [] ∨ node.name = some "constructor" ∧
        found = handle ∧ ∃ owner, parent.bind graph.node? = some owner ∧ owner.kind = .cls ∧
          owner.name = some className := by
  cases named : node.name with
  | none => simp [addFunction_of_unnamed named]
  | some own =>
    rcases class_or_apart graph parent with ⟨owner, above, cls⟩ | apart
    · rw [addFunction_of_class named above cls]
      by_cases constructs : own = "constructor"
      · cases called : owner.name with
        | none => simp [constructs, above, called]
        | some ownerName => simp [constructs, above, called, cls, Listing.mem_getD_add, and_comm]
      · simp [constructs]
    · have none : ¬ ∃ owner, parent.bind graph.node? = some owner ∧ owner.kind = .cls ∧
          owner.name = some className := fun ⟨owner, above, cls, _⟩ => apart owner above cls
      rw [addFunction_of_free named apart]
      split <;> simp [none]

theorem mem_params_addParam (function : Nat) (found : Nat × Nat) :
    found ∈ (tables.addParam parent handle node).params.getD function [] ↔
      found ∈ tables.params.getD function [] ∨ parent = some function ∧
        ∃ number, node.properties.number? "index" = some number ∧
          found = (number.toCount, handle) := by
  unfold addParam
  cases parent with
  | none => simp
  | some above =>
    cases node.properties.number? "index" with
    | none => simp
    | some number => simp [Listing.mem_getD_add]

theorem mem_returns_addReturn (around : Option Nat) (function found : Nat) :
    found ∈ (tables.addReturn around handle).returns.getD function [] ↔
      found ∈ tables.returns.getD function [] ∨ around = some function ∧ found = handle := by
  unfold addReturn
  cases around with
  | none => simp
  | some above => simp [Listing.mem_getD_add]

end LinkTables

namespace Graph

/-! ## The tables of a graph -/

section Tables

variable (graph : Graph) (tables : LinkTables) (node : Node) (handle : Nat)

/-- Entering a node changes the tables that are about nodes of its kind only. -/
theorem add_keeps :
    let added := LinkTables.add graph graph.parents tables (node, handle)
    (node.kind ≠ .func → added.free = tables.free ∧ added.methods = tables.methods ∧
        added.constructors = tables.constructors) ∧
      (node.kind ≠ .param → added.params = tables.params) ∧
      (node.kind ≠ .stmt → node.kind ≠ .expr → added.returns = tables.returns) ∧
      (node.kind ≠ .call → added.pending = tables.pending) := by
  cases kind : node.kind with
  | func =>
    simp only [LinkTables.add, kind]
    rw [LinkTables.addFunction_eq]
    simp
  | param =>
    simp only [LinkTables.add, kind]
    rw [LinkTables.addParam_eq]
    simp
  | stmt =>
    simp only [LinkTables.add, kind]
    split
    · rw [LinkTables.addReturn_eq]
      simp
    · simp
  | expr =>
    simp only [LinkTables.add, kind]
    rw [LinkTables.addReturn_eq]
    simp
  | call =>
    simp only [LinkTables.add, kind]
    split <;> simp
  | cls => simp [LinkTables.add, kind]
  | var => simp [LinkTables.add, kind]

theorem add_of_func {node : Node} (kind : node.kind = .func) :
    LinkTables.add graph graph.parents tables (node, handle) =
      tables.addFunction graph (graph.parent? handle) handle node := by
  simp only [LinkTables.add, kind]
  rfl

theorem mem_params_add (function : Nat) (found : Nat × Nat) :
    found ∈ (LinkTables.add graph graph.parents tables (node, handle)).params.getD function [] ↔
      found ∈ tables.params.getD function [] ∨ node.kind = .param ∧
        graph.parent? handle = some function ∧
        ∃ number, node.properties.number? "index" = some number ∧
          found = (number.toCount, handle) := by
  by_cases kind : node.kind = .param
  · simp only [LinkTables.add, kind, LinkTables.mem_params_addParam, parent?, true_and]
  · rw [(add_keeps graph tables node handle).2.1 kind]
    simp [kind]

theorem mem_returns_add (function found : Nat) :
    found ∈ (LinkTables.add graph graph.parents tables (node, handle)).returns.getD function [] ↔
      found ∈ tables.returns.getD function [] ∨ found = handle ∧
        (node.kind = .stmt ∧ node.properties.text? "kind" = some "return_statement" ∧
            graph.enclosingFunction? handle = some function ∨
          node.kind = .expr ∧ graph.parent? handle = some function ∧
            graph.hasKind function .func = true) := by
  by_cases stmt : node.kind = .stmt
  · simp only [LinkTables.add, stmt, true_and]
    split
    · next returns =>
      rw [LinkTables.mem_returns_addReturn]
      simp [returns, enclosingFunction?, and_comm]
    · next other => simp [other]
  · by_cases expr : node.kind = .expr
    · simp only [LinkTables.add, expr]
      rw [LinkTables.mem_returns_addReturn, Option.filter_eq_some_iff]
      simp [parent?, and_comm]
    · rw [(add_keeps graph tables node handle).2.2.1 stmt expr]
      simp [stmt, expr]

theorem pending_add :
    (LinkTables.add graph graph.parents tables (node, handle)).pending =
      if node.kind = .call ∧ node.properties.flag? "resolved" = some false then
        (node.id, handle) :: tables.pending
      else tables.pending := by
  by_cases kind : node.kind = .call
  · simp only [LinkTables.add, kind, true_and]
    split <;> rfl
  · rw [(add_keeps graph tables node handle).2.2.2 kind, if_neg fun both => kind both.1]

theorem mem_zipIdx_nodes {graph : Graph} {entry : Node × Nat} :
    entry ∈ graph.nodes.zipIdx.toList ↔ graph.nodes[entry.2]? = some entry.1 := by
  rw [Array.mem_toList_iff, Array.mem_zipIdx_iff_getElem?]

/-- What the nodes note in a table is what the table lists in the end. -/
theorem mem_linkTables {α γ : Type} (read : LinkTables → α → List γ)
    {notes : Node × Nat → α → γ → Prop}
    (each : ∀ tables entry key found,
      found ∈ read (LinkTables.add graph graph.parents tables entry) key ↔
        found ∈ read tables key ∨ notes entry key found)
    (empty : ∀ key, read {} key = []) (key : α) (found : γ) :
    found ∈ read (graph.linkTables graph.parents) key ↔
      ∃ (handle : Nat) (node : Node), graph.nodes[handle]? = some node ∧
        notes (node, handle) key found := by
  rw [linkTables, ← Array.foldl_toList, mem_foldl_notes each, empty]
  simp only [List.not_mem_nil, false_or]
  constructor
  · rintro ⟨⟨node, handle⟩, inside, noted⟩
    exact ⟨handle, node, mem_zipIdx_nodes.1 inside, noted⟩
  · rintro ⟨handle, node, held, noted⟩
    exact ⟨(node, handle), mem_zipIdx_nodes.2 held, noted⟩

theorem bind_parent? {handle : Nat} {owner : Node} :
    (graph.parent? handle).bind graph.node? = some owner ∧ owner.kind = .cls ↔
      graph.ClassAbove handle owner := by
  simp only [Option.bind_eq_some_iff, ClassAbove, node?]
  constructor
  · rintro ⟨⟨parent, above, held⟩, cls⟩
    exact ⟨parent, above, held, cls⟩
  · rintro ⟨parent, above, held, cls⟩
    exact ⟨⟨parent, above, held⟩, cls⟩

theorem mem_free (name : String) (handle : Nat) :
    handle ∈ (graph.linkTables graph.parents).free.getD name [] ↔
      graph.FreeFunction handle name := by
  have each : ∀ (tables : LinkTables) (entry : Node × Nat) (name : String) (found : Nat),
      found ∈ (LinkTables.add graph graph.parents tables entry).free.getD name [] ↔
        found ∈ tables.free.getD name [] ∨ entry.1.kind = .func ∧ entry.1.name = some name ∧
          found = entry.2 ∧ (¬ ∃ owner, graph.ClassAbove entry.2 owner) ∧
          entry.1.properties.isSet "isMethod" = false := by
    rintro tables ⟨node, place⟩ name found
    by_cases kind : node.kind = .func
    · rw [add_of_func graph tables place kind, LinkTables.mem_free_addFunction]
      simp only [kind, true_and, ← bind_parent?, not_exists, not_and, ne_eq]
    · rw [((add_keeps graph tables node place).1 kind).1]
      simp [kind]
  rw [graph.mem_linkTables (fun tables key => tables.free.getD key []) each fun _ => by simp]
  constructor
  · rintro ⟨place, node, held, kind, named, rfl, apart, unset⟩
    exact ⟨⟨node, held, kind, named⟩, apart, node, held, unset⟩
  · rintro ⟨⟨node, held, kind, named⟩, apart, node', held', unset⟩
    obtain rfl := Option.some.inj (held.symm.trans held')
    exact ⟨handle, node, held, kind, named, rfl, apart, unset⟩

theorem mem_methods (name : String) (handle : Nat) :
    handle ∈ (graph.linkTables graph.parents).methods.getD name [] ↔ graph.Method handle name := by
  have each : ∀ (tables : LinkTables) (entry : Node × Nat) (name : String) (found : Nat),
      found ∈ (LinkTables.add graph graph.parents tables entry).methods.getD name [] ↔
        found ∈ tables.methods.getD name [] ∨ entry.1.kind = .func ∧ entry.1.name = some name ∧
          found = entry.2 ∧ ∃ owner, graph.ClassAbove entry.2 owner := by
    rintro tables ⟨node, place⟩ name found
    by_cases kind : node.kind = .func
    · rw [add_of_func graph tables place kind, LinkTables.mem_methods_addFunction]
      simp only [kind, true_and, ← bind_parent?]
    · rw [((add_keeps graph tables node place).1 kind).2.1]
      simp [kind]
  rw [graph.mem_linkTables (fun tables key => tables.methods.getD key []) each fun _ => by simp]
  constructor
  · rintro ⟨place, node, held, kind, named, rfl, above⟩
    exact ⟨⟨node, held, kind, named⟩, above⟩
  · rintro ⟨⟨node, held, kind, named⟩, above⟩
    exact ⟨handle, node, held, kind, named, rfl, above⟩

theorem mem_constructors (className : String) (handle : Nat) :
    handle ∈ (graph.linkTables graph.parents).constructors.getD className [] ↔
      graph.Constructor handle className := by
  have each : ∀ (tables : LinkTables) (entry : Node × Nat) (className : String) (found : Nat),
      found ∈ (LinkTables.add graph graph.parents tables entry).constructors.getD className [] ↔
        found ∈ tables.constructors.getD className [] ∨ entry.1.kind = .func ∧
          entry.1.name = some "constructor" ∧ found = entry.2 ∧
          ∃ owner, graph.ClassAbove entry.2 owner ∧ owner.name = some className := by
    rintro tables ⟨node, place⟩ className found
    by_cases kind : node.kind = .func
    · rw [add_of_func graph tables place kind, LinkTables.mem_constructors_addFunction]
      simp only [kind, true_and, ← bind_parent?, and_assoc]
    · rw [((add_keeps graph tables node place).1 kind).2.2]
      simp [kind]
  rw [graph.mem_linkTables (fun tables key => tables.constructors.getD key []) each
    fun _ => by simp]
  constructor
  · rintro ⟨place, node, held, kind, named, rfl, above⟩
    exact ⟨⟨node, held, kind, named⟩, above⟩
  · rintro ⟨⟨node, held, kind, named⟩, above⟩
    exact ⟨handle, node, held, kind, named, rfl, above⟩

theorem mem_params (function position param : Nat) :
    (position, param) ∈ (graph.linkTables graph.parents).params.getD function [] ↔
      graph.ParamOf function position param := by
  rw [graph.mem_linkTables (fun tables key => tables.params.getD key [])
    (fun tables entry => graph.mem_params_add tables entry.1 entry.2) fun _ => by simp]
  constructor
  · rintro ⟨place, node, held, kind, above, number, given, same⟩
    obtain ⟨rfl, rfl⟩ := Prod.mk.inj same
    exact ⟨node, number, held, kind, above, given, rfl⟩
  · rintro ⟨node, number, held, kind, above, given, rfl⟩
    exact ⟨param, node, held, kind, above, number, given, rfl⟩

theorem mem_returns (function site : Nat) :
    site ∈ (graph.linkTables graph.parents).returns.getD function [] ↔
      graph.ReturnSite function site := by
  rw [graph.mem_linkTables (fun tables key => tables.returns.getD key [])
    (fun tables entry => graph.mem_returns_add tables entry.1 entry.2) fun _ => by simp]
  constructor
  · rintro ⟨place, node, held, rfl, returns⟩
    exact ⟨node, held, returns⟩
  · rintro ⟨node, held, returns⟩
    exact ⟨site, node, held, rfl, returns⟩

/-- The unresolved calls are listed, the last one first, each with its id. -/
theorem pending_linkTables : (graph.linkTables graph.parents).pending =
    ((graph.nodes.zipIdx.toList.filter fun entry => entry.1.kind == .call &&
      entry.1.properties.flag? "resolved" == some false).map
        fun entry => (entry.1.id, entry.2)).reverse := by
  have each : ∀ (entries : List (Node × Nat)) (tables : LinkTables),
      (entries.foldl (LinkTables.add graph graph.parents) tables).pending =
        ((entries.filter fun entry => entry.1.kind == .call &&
          entry.1.properties.flag? "resolved" == some false).map
            fun entry => (entry.1.id, entry.2)).reverse ++ tables.pending := by
    intro entries
    induction entries with
    | nil => exact fun _ => rfl
    | cons entry rest ih =>
      intro tables
      rw [List.foldl_cons, ih, pending_add]
      by_cases waits : entry.1.kind = .call ∧ entry.1.properties.flag? "resolved" = some false
      · rw [if_pos waits, List.filter_cons_of_pos (by simpa using waits)]
        simp
      · rw [if_neg waits, List.filter_cons_of_neg (by simpa using waits)]
  rw [linkTables, ← Array.foldl_toList, each]
  exact List.append_nil _

theorem mem_pending (id : String) (handle : Nat) :
    (id, handle) ∈ (graph.linkTables graph.parents).pending ↔
      ∃ node, graph.Pending handle node ∧ node.id = id := by
  rw [pending_linkTables]
  simp only [List.mem_reverse, List.mem_map, List.mem_filter, mem_zipIdx_nodes, Pending,
    Bool.and_eq_true, beq_iff_eq]
  constructor
  · rintro ⟨⟨node, place⟩, ⟨held, kind, waits⟩, same⟩
    obtain ⟨rfl, rfl⟩ := Prod.mk.inj same
    exact ⟨node, ⟨held, kind, waits⟩, rfl⟩
  · rintro ⟨node, ⟨held, kind, waits⟩, rfl⟩
    exact ⟨(node, handle), ⟨held, kind, waits⟩, rfl⟩

/-- The functions that the tables give for a call are those at which it aims. -/
theorem mem_targets (call : Node) (target : Nat) :
    target ∈ (graph.linkTables graph.parents).targets call ↔ graph.Aims call target := by
  unfold LinkTables.targets Aims
  cases call.properties.text? "callee" with
  | none => simp
  | some name =>
    simp only [Option.some.injEq, exists_eq_left']
    split
    · exact graph.mem_constructors name target
    · split
      · exact graph.mem_methods name target
      · exact graph.mem_free name target

/-- The connections between a call and a target are those of the relation. -/
theorem mem_edges_callSite (handle : Nat) (call : Node) (target : Nat) (connection : Connection) :
    connection ∈ (graph.callSite graph.parents handle call).edges graph.nameOf
        ((graph.linkTables graph.parents).target target) ↔
      graph.Links handle call target connection := by
  rw [CallSite.mem_edges]
  constructor
  · intro yields
    cases yields with
    | call around => exact .call around
    | result consumed => exact .result consumed
    | returned consumed listed => exact .returned consumed ((graph.mem_returns target _).1 listed)
    | @argument position param listed less =>
      cases given : call.properties.number? "argCount" with
      | none => simp [callSite, given] at less
      | some count =>
        refine .argument ((graph.mem_params target position param).1 listed) given ?_
        simpa [callSite, given] using less
  · intro links
    cases links with
    | call around => exact .call around
    | result consumed => exact .result consumed
    | returned consumed returns => exact .returned consumed ((graph.mem_returns target _).2 returns)
    | argument paramOf given less =>
      exact .argument ((graph.mem_params target _ _).2 paramOf) (by simpa [callSite, given] using less)

end Tables

end Graph

end CodeGraph

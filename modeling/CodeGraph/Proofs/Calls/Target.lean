import CodeGraph.Calls.Target

/-!
# Between a call and a function

The edges between a call and a function that it may reach, as a relation with one rule for each sort of
edge (`CallSite.Yields`).
-/

namespace CodeGraph

namespace CallSite

/-- The connections between a call and a function that it may reach.

* `call`: the function around the call calls the target.
* `result`: a call whose value is used gets the result of the target.
* `returned`: it gets that from each site at which the target returns.
* `argument`: an argument goes to the parameter whose position it fills. -/
inductive Yields (nameOf : Nat → String) (site : CallSite) (target : CallTarget) :
    Connection → Prop
  | call {caller : Nat} : site.caller = some caller → Yields nameOf site target
      { source := caller, target := target.node, kind := .call
        properties := Properties.empty.insert "line" (.ofNat site.line) }
  | result : site.consumed = true → Yields nameOf site target
      { source := target.node, target := site.node, kind := .result }
  | returned {returned : Nat} : site.consumed = true → returned ∈ target.returns →
      Yields nameOf site target
        { source := returned, target := site.node, kind := .flow, tag := some "return"
          properties := Properties.empty.insert "via" (.text "return") }
  | argument {position param : Nat} : (position, param) ∈ target.params →
      position < site.argumentCount → Yields nameOf site target
        { source := site.node, target := param, kind := .flow, tag := some (nameOf param)
          properties := (Properties.empty.insert "via" (.text "argument")).insert
            "variable" (.text (nameOf param)) }

variable {nameOf : Nat → String} {site : CallSite} {target : CallTarget} {connection : Connection}

theorem mem_edges :
    connection ∈ site.edges nameOf target ↔ site.Yields nameOf target connection := by
  simp only [edges, List.mem_append, or_assoc]
  constructor
  · rintro (calls | results | arguments)
    · obtain ⟨caller, around, rfl⟩ := List.mem_map.1 calls
      exact .call (Option.mem_toList.1 around)
    · unfold resultEdges at results
      split at results
      · next consumed =>
        rcases List.mem_cons.1 results with rfl | returned
        · exact .result consumed
        · obtain ⟨site, listed, rfl⟩ := List.mem_map.1 returned
          exact .returned consumed listed
      · cases results
    · obtain ⟨⟨position, param⟩, there, rfl⟩ := List.mem_map.1 arguments
      obtain ⟨listed, less⟩ := List.mem_filter.1 there
      exact .argument listed (of_decide_eq_true less)
  · intro yields
    cases yields with
    | call around => exact .inl (List.mem_map.2 ⟨_, Option.mem_toList.2 around, rfl⟩)
    | result consumed =>
      rw [resultEdges, if_pos consumed]
      exact .inr (.inl List.mem_cons_self)
    | returned consumed listed =>
      rw [resultEdges, if_pos consumed]
      exact .inr (.inl (List.mem_cons_of_mem _ (List.mem_map.2 ⟨_, listed, rfl⟩)))
    | argument listed less =>
      exact .inr (.inr (List.mem_map.2 ⟨_, List.mem_filter.2 ⟨listed, decide_eq_true less⟩, rfl⟩))

end CallSite

end CodeGraph

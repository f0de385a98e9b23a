import CodeGraph.Proofs.Calls.Returns
import CodeGraph.Proofs.Facts.Located
import CodeGraph.Proofs.Facts.Twice

/-!
# Functions and calls are recorded once

The table of functions, the regions and the table of calls have one entry for each function and each call
just if the walk comes by none of them twice at one syntax node
(`SourceFile.Apart.recordsOnce_iff`). It comes by a node twice inside of the target of an update or of an
augmented assignment, as the target is read first and bound then.
-/

namespace CodeGraph

/-- Each function and each call of a file is recorded once. -/
structure Facts.RecordsOnce (facts : Facts) (graph : Graph) : Prop where
  functions : (facts.functions.toList.map FunctionFact.node).Nodup
  owners : (facts.regions.toList.map Region.owner).Nodup
  calls : (facts.calls.toList.map CallFact.node).Nodup
  /-- A variable is declared in the one region of the function around it. -/
  bindings : ∀ (handle : Nat) (node : Node), graph.nodes[handle]? = some node →
    node.kind.isBinding = true → ∃ number region, facts.region? handle = some number ∧
      facts.regions[number]? = some region ∧ region.owner = graph.enclosingFunction? handle ∧
      ∀ other region', facts.regions[other]? = some region' → region'.owner = region.owner →
        other = number
  /-- As many calls are resolved as nodes of calls are marked as resolved. -/
  resolved : facts.stages.resolved = (graph.nodes.toList.filter fun node =>
    node.kind = .call ∧ node.properties.flag? "resolved" = some true).length

namespace CallFact.LastAt

/-- If no two facts are about one node, each is the last about its node. -/
theorem of_nodup {calls : List CallFact} (nodup : (calls.map CallFact.node).Nodup) {call : CallFact}
    {handle : Nat} (last : LastAt calls handle call) {other : CallFact} (listed : other ∈ calls)
    (same : other.node = handle) : other = call :=
  List.inj_on_of_nodup_map nodup listed last.mem (same.trans last.node.symm)

end CallFact.LastAt

namespace SourceFile

open Facts

variable {present : Instant} {file : SourceFile}

theorem signatures_nodes (facts : Facts) :
    facts.handles .func = facts.functions.toList.map FunctionFact.node := by
  rw [handles, signatures, List.map_map]
  rfl

/-- The owners of the regions differ if the functions do. -/
theorem nodup_owners (functions : ((Facts.of file).handles .func).Nodup) :
    ((Facts.of file).regions.toList.map Region.owner).Nodup := by
  rw [map_owner_regions, owners, List.nodup_cons]
  refine ⟨fun inside => ?_, ?_⟩
  · obtain ⟨signature, -, none⟩ := List.mem_map.1 inside
    cases none
  · have some_ := functions.map (Option.some_injective Nat)
    rw [handles, List.map_map] at some_
    exact some_

/-- A variable is declared in a region of the function around it. -/
theorem region_of_binding (apart : file.Apart) {handle : Nat} {node : Node}
    (found : (Graph.ofFile present file).nodes[handle]? = some node)
    (binding : node.kind.isBinding = true) :
    ∃ number region, (Facts.of file).region? handle = some number ∧
      (Facts.of file).regions[number]? = some region ∧
      region.owner = (Graph.ofFile present file).enclosingFunction? handle := by
  have settles := settles_ofFile present file
  have located := located_of file
  obtain ⟨yield, inside, id, kind, -⟩ := yield_of_node found
  have stands : (Graph.ofFile present file).IdAt handle yield.node.id := ⟨node, found, id.symm⟩
  rcases located.told yield inside (kind ▸ binding) with ⟨other, there, told⟩ | ⟨sight, none, -⟩
  · obtain rfl := settles.formed.idAt_unique stands (there.kept settles.kept)
    obtain ⟨number, held⟩ := Option.isSome_iff_exists.1 told
    obtain ⟨yield', inside', stands', owner, owned, around⟩ := located.owned handle number held
    obtain rfl := apart.told yield inside yield' inside' (there.unique stands')
    rw [← map_owner_regions, List.getElem?_map, Option.map_eq_some_iff] at owned
    obtain ⟨region, listed, rfl⟩ := owned
    rw [Array.getElem?_toList] at listed
    refine ⟨number, region, held, listed, settles.formed.rel_unique
      (rel_imp (fun _ _ at_ => at_.kept settles.kept) around) ?_⟩
    exact (grown_ofFile present file).enclosingFunction? settles.formed apart.told inside stands
  · cases none

/-- If no two facts are about one call, the resolved calls are those whose nodes are marked so. -/
theorem length_resolvedCalls (calls : ((Facts.of file).calls.toList.map CallFact.node).Nodup) :
    (Facts.of file).resolvedCalls.length =
      ((Graph.ofFile present file).nodes.toList.filter fun node =>
        node.kind = .call ∧ node.properties.flag? "resolved" = some true).length := by
  let marked : Node → Bool := fun node =>
    node.kind = .call ∧ node.properties.flag? "resolved" = some true
  let nodes := (Graph.ofFile present file).nodes.toList
  -- Handles stand for calls on one side and for nodes on the other.
  have handles : (((Facts.of file).resolvedCalls.map CallFact.node).Perm
      ((nodes.zipIdx.filter fun entry => marked entry.1).map Prod.snd)) := by
    refine (List.perm_ext_iff_of_nodup ?_ ?_).2 fun handle => ?_
    · exact calls.sublist (List.filter_sublist.map _)
    · refine List.Nodup.sublist (List.filter_sublist.map _) ?_
      rw [List.zipIdx_map_snd]
      exact List.nodup_range'
    · simp only [List.mem_map, List.mem_filter, Prod.exists, exists_eq_right,
        List.mem_zipIdx_iff_getElem?, nodes, Array.getElem?_toList, marked, decide_eq_true_eq]
      constructor
      · rintro ⟨call, listed, rfl⟩
        obtain ⟨there, reaches⟩ := List.mem_filter.1 listed
        obtain ⟨node, found, kind⟩ :=
          (kind_of_calls (Array.mem_toList_iff.1 there)).node.kept (Graph.kept_ofFile present file)
        have isCall := List.mem_singleton.1 kind
        obtain ⟨other, last, flag⟩ := resolved_iff found isCall
        obtain rfl := last.of_nodup calls there rfl
        exact ⟨node, found, isCall, flag.2 (isResolved_iff.1 reaches)⟩
      · rintro ⟨node, found, isCall, resolved⟩
        obtain ⟨call, last, flag⟩ := resolved_iff found isCall
        exact ⟨call, List.mem_filter.2 ⟨last.mem, isResolved_iff.2 (flag.1 resolved)⟩, last.node⟩
  have lengths := handles.length_eq
  rw [List.length_map, List.length_map] at lengths
  rw [lengths]
  conv_rhs => rw [← List.zipIdx_map_fst 0 (Graph.ofFile present file).nodes.toList, List.filter_map,
    List.length_map]
  rfl

/-- In a file whose syntax nodes are apart, each function and each call is recorded once just if the walk
comes by neither a function nor a call twice. -/
theorem Apart.recordsOnce_iff (present : Instant) (apart : file.Apart) :
    (Facts.of file).RecordsOnce (Graph.ofFile present file) ↔
      ∀ yield ∈ file.twice, yield.node.kind ∉ NodeKind.entered := by
  have functions := @Apart.nodup_handles_iff file apart .func (by decide)
  have calls := @Apart.nodup_handles_iff file apart .call (by decide)
  have split : ∀ kind : NodeKind, kind ∉ NodeKind.entered ↔ kind ≠ .func ∧ kind ≠ .call := by
    simp [NodeKind.entered]
  constructor
  · intro once yield twice
    rw [split]
    refine ⟨functions.1 ?_ yield twice, calls.1 once.calls yield twice⟩
    rw [signatures_nodes]
    exact once.functions
  · intro none
    have functions := functions.2 fun yield twice => ((split _).1 (none yield twice)).1
    have calls := calls.2 fun yield twice => ((split _).1 (none yield twice)).2
    refine ⟨signatures_nodes _ ▸ functions, nodup_owners functions, calls, ?_,
      length_resolvedCalls calls⟩
    intro handle node found binding
    obtain ⟨number, region, held, listed, owned⟩ := region_of_binding apart found binding
    refine ⟨number, region, held, listed, owned, fun other region' listed' same => ?_⟩
    have at_ : ∀ {place : Nat} {region : Region}, (Facts.of file).regions[place]? = some region →
        ((Facts.of file).regions.toList.map Region.owner)[place]? = some region.owner := by
      intro place region found
      rw [List.getElem?_map, Array.getElem?_toList, found, Option.map_some]
    exact (List.getElem?_inj (List.getElem?_eq_some_iff.1 (at_ listed')).1 (nodup_owners functions)).1
      ((at_ listed').trans ((congrArg some same).trans (at_ listed).symm))

/-- In a file with a function that calls itself, both are recorded once. -/
theorem retrying_recordsOnce : retrying.Apart ∧
    (∀ yield ∈ retrying.twice, yield.node.kind ∉ NodeKind.entered) ∧
    (Facts.of retrying).RecordsOnce (Graph.ofFile .epoch retrying) := by
  have none : ∀ yield ∈ retrying.twice, yield.node.kind ∉ NodeKind.entered := by decide +kernel
  exact ⟨retrying_apart, none, (Apart.recordsOnce_iff .epoch retrying_apart).2 none⟩

/-- A file with the tree of `function f() {} f().x++;`. -/
def stepping : SourceFile where
  path := ⟨"a.ts"⟩
  source := .ofString "function f() \x7b\x7d f().x++;"
  tree :=
    let node (kind : String) (field : Option String) (start stop : Nat) (children : List Tree) :=
      Tree.node { kind, field, start, stop, named := true } children
    node "program" none 0 24 [
      node "function_declaration" none 0 15 [
        node "identifier" (some "name") 9 10 [],
        node "formal_parameters" (some "parameters") 10 12 [],
        node "statement_block" (some "body") 13 15 []],
      node "expression_statement" none 16 24 [node "update_expression" none 16 23 [
        node "member_expression" (some "argument") 16 21 [
          node "call_expression" (some "object") 16 19 [
            node "identifier" (some "function") 16 17 [],
            node "arguments" (some "arguments") 17 19 []],
          node "property_identifier" (some "property") 20 21 []]]]]

/-- A call in the target of an update is recorded twice. -/
theorem stepping_not_recordsOnce : stepping.Apart ∧
    ¬ (Facts.of stepping).RecordsOnce (Graph.ofFile .epoch stepping) := by
  have apart : stepping.Apart := by decide +kernel
  refine ⟨apart, fun once => ?_⟩
  have none := (@Apart.nodup_handles_iff stepping apart .call (by decide)).1 once.calls
  exact absurd none (by decide +kernel)

end SourceFile

end CodeGraph

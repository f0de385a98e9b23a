import CodeGraph.Proofs.Calls.Tables
import CodeGraph.Proofs.Graph.Ancestors
import CodeGraph.Proofs.Graph.SideBySide

/-!
# Parts of a graph

What linking reads off a graph at a node of a part that stands in it (`Graph.Stands`) it would read off the
part alone: containment edges do not lead out of a part, so parents and the nearest functions around nodes
are those in the part, and with them parameters, returning sites, free functions and unresolved calls.
-/

namespace CodeGraph

namespace Graph

namespace Stands

variable {part whole : Graph} {offset : Nat} (stands : part.Stands whole offset)

include stands

theorem idAt {handle : Nat} {id : String} (there : part.IdAt handle id) :
    whole.IdAt (offset + handle) id := by
  obtain ⟨node, found, same⟩ := there
  refine ⟨node, ?_, same⟩
  rw [stands.nodes handle (Array.getElem?_eq_some_iff.1 found).1]
  exact found

theorem lt {handle : Nat} (less : handle < part.nodes.size) : offset + handle < whole.nodes.size := by
  have found := stands.nodes handle less
  rw [Array.getElem?_eq_getElem less] at found
  exact (Array.getElem?_eq_some_iff.1 found).1

theorem hasKind {handle : Nat} (less : handle < part.nodes.size) (kind : NodeKind) :
    whole.hasKind (offset + handle) kind = part.hasKind handle kind := by
  rw [Graph.hasKind, Graph.hasKind, stands.nodes handle less]

/-- Both ends of an edge are in the part, or neither is. -/
theorem closed_hasEdge (formed : whole.WellFormed) {kind : EdgeKind} {source target : Nat}
    {tag : Option String} (has : whole.HasEdge kind source target tag) :
    part.spans offset source = part.spans offset target := by
  obtain ⟨edge, inside, -, rfl, rfl, -⟩ := has
  obtain ⟨arc, there, rfl⟩ := List.mem_map.1 inside
  obtain ⟨place, found⟩ := Array.mem_iff_getElem?.1 (Array.mem_toList_iff.1 there)
  rw [(formed.ends place arc found).1, (formed.ends place arc found).2]
  exact stands.closed arc there

/-! ## Containment -/

variable (formed : part.WellFormed)
include formed

/-- The node that contains a node of the part is that in the part. -/
theorem parent? {handle : Nat} (less : handle < part.nodes.size) :
    whole.parent? (offset + handle) = (part.parent? handle).map (offset + ·) := by
  let into (target : Nat) (arc : Arc) : Bool := arc.edge.kind == .child && arc.target == target
  -- The edges into the node are among those of the part.
  have inPart : ∀ arc ∈ whole.arcs.toList, into (offset + handle) arc =
      (into (offset + handle) arc &&
        (part.spans offset arc.source && part.spans offset arc.target)) := by
    intro arc inside
    cases reaches : into (offset + handle) arc with
    | false => rfl
    | true =>
      simp only [into, Bool.and_eq_true, beq_iff_eq] at reaches
      have within : part.spans offset arc.target = true := by
        rw [reaches.2, spans_iff]
        omega
      rw [stands.closed arc inside, within]
      rfl
  have same : whole.arcs.toList.filter (into (offset + handle)) =
      (part.arcs.toList.filter (into handle)).map (Arc.shift offset) := by
    rw [List.filter_congr inPart, ← List.filter_filter, stands.arcs, List.filter_map]
    refine congrArg _ (List.filter_congr fun arc _ => ?_)
    rw [Bool.eq_iff_iff]
    simp [into, Arc.shift]
  rw [whole.parent?_eq (stands.lt less), part.parent?_eq less]
  show ((whole.arcs.toList.filter (into (offset + handle))).getLast?).map _ = _
  rw [same, List.getLast?_map, Option.map_map, Option.map_map]
  cases last : (part.arcs.toList.filter (into handle)).getLast? with
  | none => rfl
  | some arc =>
    obtain ⟨place, held⟩ := Array.mem_iff_getElem?.1 (Array.mem_toList_iff.1
      (List.mem_of_mem_filter (List.mem_of_getLast? last)))
    simp only [Option.map_some, Function.comp_apply, Arc.shift, (formed.ends place arc held).1]

/-- Going up from a node of the part leads to the nodes to which it leads in the part. -/
theorem above_iterate {start : Option Nat} (within : ∀ handle, start = some handle →
      handle < part.nodes.size) (steps : Nat) :
    whole.above^[steps] (start.map (offset + ·)) = (part.above^[steps] start).map (offset + ·) := by
  induction steps generalizing start with
  | zero => rfl
  | succ steps ih =>
    have once : whole.above (start.map (offset + ·)) = (part.above start).map (offset + ·) := by
      cases start with
      | none => rfl
      | some handle => exact stands.parent? formed (within handle rfl)
    rw [Function.iterate_succ_apply, Function.iterate_succ_apply, once]
    refine ih fun handle reached => ?_
    obtain ⟨low, -, up⟩ := Option.bind_eq_some_iff.1 reached
    exact formed.parent?_lt up

theorem firstFunction_iff {handle steps found : Nat} (less : handle < part.nodes.size) :
    whole.FirstFunction (whole.parent? (offset + handle)) steps found ↔
      ∃ inner, found = offset + inner ∧
        part.FirstFunction (part.parent? handle) steps inner := by
  have climbs := fun steps => stands.above_iterate formed
    (fun _ (up : part.parent? handle = some _) => formed.parent?_lt up) steps
  have kinds : ∀ {steps high}, part.above^[steps] (part.parent? handle) = some high →
      whole.hasKind (offset + high) .func = part.hasKind high .func :=
    fun reached => stands.hasKind (formed.above_lt reached) _
  rw [stands.parent? formed less]
  constructor
  · rintro ⟨climbed, func, before⟩
    rw [climbs, Option.map_eq_some_iff] at climbed
    obtain ⟨inner, reached, rfl⟩ := climbed
    refine ⟨inner, rfl, reached, (kinds reached).symm.trans func, fun fewer less high found => ?_⟩
    rw [← kinds found]
    exact before fewer less _ (by rw [climbs, found]; rfl)
  · rintro ⟨inner, rfl, reached, func, before⟩
    refine ⟨by rw [climbs, reached]; rfl, (kinds reached).trans func, fun fewer less high found => ?_⟩
    rw [climbs, Option.map_eq_some_iff] at found
    obtain ⟨low, found, rfl⟩ := found
    exact (kinds found).trans (before fewer less low found)

/-- The nearest function around a node of the part is that in the part. -/
theorem enclosingFunction? (formed' : whole.WellFormed) {handle : Nat}
    (less : handle < part.nodes.size) :
    whole.enclosingFunction? (offset + handle) =
      (part.enclosingFunction? handle).map (offset + ·) := by
  refine Option.ext fun found => ?_
  have around : whole.enclosingFunction? (offset + handle) = some found ↔
      ∃ steps, whole.FirstFunction (whole.parent? (offset + handle)) steps found :=
    formed'.climb_enough (Nat.le_refl _)
  have inside : ∀ inner, part.enclosingFunction? handle = some inner ↔
      ∃ steps, part.FirstFunction (part.parent? handle) steps inner :=
    fun inner => formed.climb_enough (Nat.le_refl _)
  simp only [around, stands.firstFunction_iff formed less, Option.map_eq_some_iff, inside]
  constructor
  · rintro ⟨steps, inner, rfl, first⟩
    exact ⟨inner, ⟨steps, first⟩, rfl⟩
  · rintro ⟨inner, ⟨steps, first⟩, rfl⟩
    exact ⟨steps, inner, rfl, first⟩

/-! ## What linking reads -/

theorem classAbove_iff {handle : Nat} {owner : Node} (less : handle < part.nodes.size) :
    whole.ClassAbove (offset + handle) owner ↔ part.ClassAbove handle owner := by
  unfold ClassAbove
  rw [stands.parent? formed less]
  constructor
  · rintro ⟨high, up, found, kind⟩
    obtain ⟨parent, above, rfl⟩ := Option.map_eq_some_iff.1 up
    rw [stands.nodes parent (formed.parent?_lt above)] at found
    exact ⟨parent, above, found, kind⟩
  · rintro ⟨parent, above, found, kind⟩
    refine ⟨offset + parent, by rw [above]; rfl, ?_, kind⟩
    rw [stands.nodes parent (formed.parent?_lt above)]
    exact found

theorem freeFunction {handle : Nat} {name : String} (free : part.FreeFunction handle name) :
    whole.FreeFunction (offset + handle) name := by
  obtain ⟨⟨node, found, named⟩, apart, node', found', plain⟩ := free
  have less := (Array.getElem?_eq_some_iff.1 found).1
  refine ⟨⟨node, ?_, named⟩, ?_, node', ?_, plain⟩
  · rw [stands.nodes handle less]
    exact found
  · rintro ⟨owner, above⟩
    exact apart ⟨owner, (stands.classAbove_iff formed less).1 above⟩
  · rw [stands.nodes handle less]
    exact found'

theorem paramOf {function position param : Nat} (takes : part.ParamOf function position param) :
    whole.ParamOf (offset + function) position (offset + param) := by
  obtain ⟨node, number, found, kind, above, index, same⟩ := takes
  have less := (Array.getElem?_eq_some_iff.1 found).1
  refine ⟨node, number, ?_, kind, ?_, index, same⟩
  · rw [stands.nodes param less]
    exact found
  · rw [stands.parent? formed less, above]
    rfl

theorem returnSite (formed' : whole.WellFormed) {function site : Nat}
    (returns : part.ReturnSite function site) :
    whole.ReturnSite (offset + function) (offset + site) := by
  obtain ⟨node, found, shape⟩ := returns
  have less := (Array.getElem?_eq_some_iff.1 found).1
  refine ⟨node, by rw [stands.nodes site less]; exact found, ?_⟩
  rcases shape with ⟨kind, text, around⟩ | ⟨kind, above, func⟩
  · refine .inl ⟨kind, text, ?_⟩
    rw [stands.enclosingFunction? formed formed' less, around]
    rfl
  · refine .inr ⟨kind, ?_, ?_⟩
    · rw [stands.parent? formed less, above]
      rfl
    · rw [stands.hasKind (formed.parent?_lt above)]
      exact func

end Stands

end Graph

end CodeGraph

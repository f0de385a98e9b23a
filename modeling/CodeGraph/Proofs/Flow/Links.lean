import CodeGraph.Flow.Edges

/-!
# The links of a region

The links that the control flow of a region asks for are the ways that control passes in it, between its
owner and the sites of its statements (`Region.Passes`, `Control.mem_links`).
-/

namespace CodeGraph

/-- `region.Passes control source target label`: control passes from one node to another within a region.

* `entry`: from the owner to the first statement.
* `exit`: from a statement that leaves the body to the owner.
* `transfer`: from a statement to another one. -/
inductive Region.Passes (region : Region) (control : Control) : Nat → Nat → Option Label → Prop
  | entry {owner first site : Nat} : region.owner = some owner → control.entry = some first →
      region.siteOf? first = some site → Passes region control owner site (some .entry)
  | exit {owner s site : Nat} {label : Label} {labels : List Label} : region.owner = some owner →
      region.siteOf? s = some site → control.exits[s]? = some labels → label ∈ labels →
      Passes region control site owner (some label)
  | transfer {s site target goal : Nat} {label : Option Label} : region.siteOf? s = some site →
      ⟨target, label⟩ ∈ control.transfersFrom s → region.siteOf? target = some goal →
      Passes region control site goal label

namespace Control

/-- What stands at one place in two lists. -/
theorem mem_zip_toList {α β : Type} {items : List α} {others : Array β} {entry : α × β} :
    entry ∈ items.zip others.toList ↔ ∃ place : Nat, items[place]? = some entry.1 ∧
      others[place]? = some entry.2 := by
  rw [List.mem_iff_getElem?]
  refine exists_congr fun place => List.getElem?_zip_eq_some.trans (and_congr Iff.rfl ?_)
  rw [Array.getElem?_toList]

theorem getElem?_sites (region : Region) (s : Nat) :
    (region.skeleton.statements.toList.map Statement.site)[s]? = region.siteOf? s := by
  rw [List.getElem?_map, Array.getElem?_toList]
  rfl

theorem mem_transfersFrom {control : Control} {s : Nat} {transfer : Transfer} :
    transfer ∈ control.transfersFrom s ↔
      ∃ transfers, control.transfers[s]? = some transfers ∧ transfer ∈ transfers := by
  rw [transfersFrom]
  cases control.transfers[s]? <;> simp

variable {region : Region} {control : Control} {link : Link}

theorem passes_of_mem_links (inside : link ∈ control.links region) :
    region.Passes control link.source link.target link.label := by
  rcases List.mem_append.1 inside with ends | between
  · cases owned : region.owner with
    | none =>
      rw [owned] at ends
      cases ends
    | some owner =>
      rw [owned] at ends
      rcases List.mem_append.1 ends with enters | leaves
      · obtain ⟨goal, given, rfl⟩ := List.mem_map.1 enters
        obtain ⟨first, entry, found⟩ := Option.bind_eq_some_iff.1 (Option.mem_toList.1 given)
        exact .entry owned entry found
      · obtain ⟨⟨start, labels⟩, paired, here⟩ := List.mem_flatMap.1 leaves
        obtain ⟨label, listed, rfl⟩ := List.mem_map.1 here
        obtain ⟨s, found, exits⟩ := mem_zip_toList.1 paired
        exact .exit owned ((getElem?_sites region s).symm.trans found) exits listed
  · obtain ⟨⟨start, transfers⟩, paired, here⟩ := List.mem_flatMap.1 between
    obtain ⟨⟨target, label⟩, listed, made⟩ := List.mem_filterMap.1 here
    obtain ⟨goal, found, rfl⟩ := Option.map_eq_some_iff.1 made
    obtain ⟨s, stood, held⟩ := mem_zip_toList.1 paired
    exact .transfer ((getElem?_sites region s).symm.trans stood)
      (mem_transfersFrom.2 ⟨transfers, held, listed⟩) found

theorem mem_links_of_passes (passes : region.Passes control link.source link.target link.label) :
    link ∈ control.links region := by
  obtain ⟨source, target, label⟩ := link
  rw [links, List.mem_append]
  cases passes with
  | entry owned entry found =>
    refine .inl ?_
    rw [owned]
    refine List.mem_append_left _ (List.mem_map.2 ⟨target, ?_, rfl⟩)
    rw [entry, Option.bind_some, found]
    exact List.mem_singleton_self _
  | @exit _ s _ label labels owned found exits listed =>
    refine .inl ?_
    rw [owned]
    exact List.mem_append_right _ (List.mem_flatMap.2 ⟨(source, labels),
      mem_zip_toList.2 ⟨s, (getElem?_sites region s).trans found, exits⟩,
      List.mem_map.2 ⟨label, listed, rfl⟩⟩)
  | @transfer s _ statement _ _ found listed reached =>
    obtain ⟨transfers, held, there⟩ := mem_transfersFrom.1 listed
    refine .inr (List.mem_flatMap.2 ⟨(source, transfers),
      mem_zip_toList.2 ⟨s, (getElem?_sites region s).trans found, held⟩,
      List.mem_filterMap.2 ⟨_, there, ?_⟩⟩)
    rw [reached]
    rfl

/-- The links of a region are the ways that control passes in it. -/
theorem mem_links : link ∈ control.links region ↔
    region.Passes control link.source link.target link.label :=
  ⟨passes_of_mem_links, mem_links_of_passes⟩

end Control

end CodeGraph

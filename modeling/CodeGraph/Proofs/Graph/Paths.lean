import Mathlib.Data.List.Chain
import Mathlib.Data.List.Nodup
import CodeGraph.Graph.Query
import CodeGraph.Proofs.Graph.Reached
import CodeGraph.Proofs.Graph.Search
import CodeGraph.Proofs.Halts

/-!
# Paths of a query

The paths that a query asks for are the sequences of joined nodes, none of them twice, from a node that
it keeps (`Graph.IsPath`). Listed by length (`Graph.allTrails`), each comes once, and the extensions
of those listed are listed behind them in the same order.

The cap of a search is put on what has been found, whether it has been looked at or not, so a search
drops extensions before it has all the paths that it returns. What it has found is a beginning of the
whole list all the same, and the whole of what the items looked at lead to unless it is full
(`CappedSearch`). A search that runs dry before it is full has seen everything, since the first item
that it misses would extend an item no shorter than itself (`Unfolding.eq_of_length_le`).
-/

namespace CodeGraph

/-! ## Searches with a cap -/

section Cap

variable {α : Type} {extend : α → List α} {rank : α → Nat} {seeds all : List α}

/-- The seeds of a list, and what its first items extend to. -/
def unfolded (extend : α → List α) (seeds all : List α) (done : Nat) : List α :=
  seeds ++ (all.take done).flatMap extend

theorem unfolded_succ {done : Nat} {item : α} (there : all[done]? = some item) :
    unfolded extend seeds all (done + 1) = unfolded extend seeds all done ++ extend item := by
  simp [unfolded, List.take_add_one, there]

/-- A list holds its seeds and then the extensions of its own items, in order. It goes by rank, and an
extension ranks one higher. -/
structure Unfolding (extend : α → List α) (rank : α → Nat) (seeds all : List α) : Prop where
  whole : all = seeds ++ all.flatMap extend
  rank_extend : ∀ item, ∀ longer ∈ extend item, rank longer = rank item + 1
  sorted : all.Pairwise fun first second => rank first ≤ rank second

namespace Unfolding

variable (unfolding : Unfolding extend rank seeds all)
include unfolding

theorem split (done : Nat) :
    unfolded extend seeds all done ++ (all.drop done).flatMap extend = all := by
  rw [unfolded, List.append_assoc, ← List.flatMap_append, List.take_append_drop]
  exact unfolding.whole.symm

/-- If the first items lead no farther than to themselves, then there are no others. -/
theorem eq_of_length_le {done : Nat} (le : (unfolded extend seeds all done).length ≤ done) :
    unfolded extend seeds all done = all := by
  have split := unfolding.split done
  cases beyond : (all.drop done).flatMap extend with
  | nil => rwa [beyond, List.append_nil] at split
  | cons missed rest =>
    -- The first item that is missed extends an item at its own place or behind it.
    exfalso
    obtain ⟨item, later, longer⟩ :=
      List.mem_flatMap.1 (beyond ▸ List.mem_cons_self : missed ∈ (all.drop done).flatMap extend)
    have higher := unfolding.rank_extend item missed longer
    have behind : all.drop (unfolded extend seeds all done).length = missed :: rest := by
      have dropped := congrArg (List.drop (unfolded extend seeds all done).length) split
      rw [List.drop_append_length, beyond] at dropped
      exact dropped.symm
    have sorted := behind ▸ unfolding.sorted.sublist (List.drop_sublist _ all)
    have lower : rank missed ≤ rank item := by
      rcases List.mem_cons.1 (behind ▸ List.drop_subset_drop_left all le later) with rfl | inside
      · exact Nat.le_refl _
      · exact (List.pairwise_cons.1 sorted).1 item inside
    omega

end Unfolding

/-- What a search has found when it has looked at a number of items: what they lead to, but for what
came when there was no room. -/
structure CappedSearch (extend : α → List α) (seeds all : List α) (limit done : Nat)
    (found : List α) : Prop where
  isPrefix : found <+: unfolded extend seeds all done
  eq_of_room : found.length ≤ limit → found = unfolded extend seeds all done

namespace CappedSearch

variable {limit done : Nat} {found : List α}

theorem start : CappedSearch extend seeds all limit 0 seeds := by
  constructor <;> simp [unfolded]

variable (search : CappedSearch extend seeds all limit done found)
  (unfolding : Unfolding extend rank seeds all)
include search unfolding

theorem isPrefix_all : found <+: all :=
  search.isPrefix.trans ⟨_, unfolding.split done⟩

/-- An item that has been found is the one that stands at its place in the whole list. -/
theorem getElem?_all {place : Nat} {item : α} (here : found[place]? = some item) :
    all[place]? = some item := by
  obtain ⟨rest, rfl⟩ := search.isPrefix_all unfolding
  rw [List.getElem?_append_left (List.getElem?_eq_some_iff.1 here).1]
  exact here

theorem next {item : α} (here : found[done]? = some item) :
    CappedSearch extend seeds all limit (done + 1)
      (found ++ (extend item).take (limit + 1 - found.length)) := by
  have further : unfolded extend seeds all (done + 1) =
      unfolded extend seeds all done ++ extend item :=
    unfolded_succ (search.getElem?_all unfolding here)
  by_cases room : found.length ≤ limit
  · rw [← search.eq_of_room room] at further
    refine ⟨?_, fun short => ?_⟩
    · rw [further]
      exact (List.prefix_append_right_inj found).2 <| List.take_prefix _ _
    · rw [List.length_append, List.length_take] at short
      rw [further, List.take_of_length_le (by omega)]
  · have full : limit + 1 - found.length = 0 := by omega
    rw [full, List.take_zero, List.append_nil]
    refine ⟨?_, fun short => absurd short room⟩
    rw [further]
    exact search.isPrefix.trans (List.prefix_append _ _)

/-- A search that is full, or has looked at everything that it found, has found the first items. -/
theorem take_eq (le : done ≤ limit) (ended : done = limit ∨ found.length ≤ done) :
    found.take limit = all.take limit := by
  obtain ⟨rest, same⟩ := search.isPrefix_all unfolding
  by_cases room : found.length ≤ done
  · have whole := search.eq_of_room (room.trans le)
    rw [whole, unfolding.eq_of_length_le (whole ▸ room)]
  · have full : limit ≤ found.length := by omega
    rw [← same, List.take_append_of_le_length full]

end CappedSearch

end Cap

namespace Graph

variable {graph : Graph} {query : Query}

/-! ## Paths -/

/-- Some edge that a query keeps leads from a node to another. -/
def Hop (graph : Graph) (query : Query) (source target : Nat) : Prop :=
  ∃ edge ∈ graph.edges, query.acceptsEdge edge = true ∧ edge.source = source ∧ edge.target = target

/-- A path that a query asks for, as the handles of its nodes. -/
structure IsPath (graph : Graph) (query : Query) (maxDepth : Nat) (path : List Nat) : Prop where
  /-- It begins at a node that the query keeps. -/
  start : ∃ handle node, path.head? = some handle ∧ graph.nodes[handle]? = some node ∧
    query.acceptsNode node = true
  hops : path.IsChain (graph.Hop query)
  nodup : path.Nodup
  /-- It has at most `maxDepth` edges. -/
  length_le : path.length ≤ maxDepth + 1

theorem mem_matches {handle : Nat} : handle ∈ graph.matches? query ↔
    ∃ node, graph.nodes[handle]? = some node ∧ query.acceptsNode node = true := by
  rw [matches?, List.mem_filter, List.mem_range, Option.any_eq_true]
  constructor
  · rintro ⟨-, node, found, kept⟩
    exact ⟨node, found, kept⟩
  · rintro ⟨node, found, kept⟩
    exact ⟨(Array.getElem?_eq_some_iff.1 found).1, node, found, kept⟩

theorem WellFormed.mem_extensions (formed : graph.WellFormed) {trail longer : List Nat} :
    longer ∈ graph.extensions query trail ↔ ∃ last before target, trail = last :: before ∧
      longer = target :: last :: before ∧ target ∉ trail ∧ graph.Hop query last target := by
  cases trail with
  | nil => simp [extensions]
  | cons last before =>
    have joined : ∀ target, (∃ edge ∈ graph.edgesFrom last, query.acceptsEdge edge = true ∧
        edge.target = target) ↔ graph.Hop query last target := by
      intro target
      constructor
      · rintro ⟨edge, from_, kept, rfl⟩
        obtain ⟨place, arc, held, source, rfl⟩ := mem_edgesFrom.1 from_
        exact ⟨arc.edge, mem_edges.2 ⟨place, arc, held, rfl⟩, kept,
          (formed.ends place arc held).1.trans source, rfl⟩
      · rintro ⟨edge, inside, kept, source, rfl⟩
        obtain ⟨place, arc, held, rfl⟩ := mem_edges.1 inside
        exact ⟨arc.edge, mem_edgesFrom.2 ⟨place, arc, held,
          (formed.ends place arc held).1.symm.trans source, rfl⟩, kept, rfl⟩
    simp only [extensions, List.mem_map, List.mem_eraseDups, List.mem_filter]
    constructor
    · rintro ⟨target, ⟨⟨edge, ⟨from_, kept⟩, rfl⟩, fresh⟩, rfl⟩
      exact ⟨last, before, edge.target, rfl, rfl, by simpa using fresh,
        (joined _).1 ⟨edge, from_, kept, rfl⟩⟩
    · rintro ⟨last', before', target, same, rfl, fresh, leads⟩
      obtain ⟨rfl, rfl⟩ := List.cons.inj same
      obtain ⟨edge, from_, kept, rfl⟩ := (joined target).2 leads
      exact ⟨edge.target, ⟨⟨edge, ⟨from_, kept⟩, rfl⟩, by simpa using fresh⟩, rfl⟩

/-! ## Trails by length -/

/-- The trails with a number of edges, the last node of each first. -/
def trailsOf (graph : Graph) (query : Query) : Nat → List (List Nat)
  | 0 => (graph.matches? query).map fun handle => [handle]
  | length + 1 => (graph.trailsOf query length).flatMap (graph.extensions query)

/-- The trails with at most a number of edges, shorter ones first. -/
def allTrails (graph : Graph) (query : Query) (maxDepth : Nat) : List (List Nat) :=
  (List.range (maxDepth + 1)).flatMap (graph.trailsOf query)

/-- The extensions of a trail, unless it is as long as allowed. -/
def longerTrails (graph : Graph) (query : Query) (maxDepth : Nat) (trail : List Nat) :
    List (List Nat) :=
  if trail.length ≤ maxDepth then graph.extensions query trail else []

theorem length_of_mem_extensions {trail longer : List Nat}
    (inside : longer ∈ graph.extensions query trail) :
    longer.tail = trail ∧ longer.length = trail.length + 1 := by
  cases trail with
  | nil => cases inside
  | cons last before =>
    obtain ⟨target, -, rfl⟩ := List.mem_map.1 inside
    exact ⟨rfl, rfl⟩

theorem length_of_mem_trailsOf {length : Nat} {trail : List Nat}
    (inside : trail ∈ graph.trailsOf query length) : trail.length = length + 1 := by
  induction length generalizing trail with
  | zero =>
    obtain ⟨handle, -, rfl⟩ := List.mem_map.1 inside
    rfl
  | succ length ih =>
    obtain ⟨shorter, inside, longer⟩ := List.mem_flatMap.1 inside
    rw [(length_of_mem_extensions longer).2, ih inside]

theorem nodup_extensions (trail : List Nat) : (graph.extensions query trail).Nodup := by
  cases trail with
  | nil => exact .nil
  | cons last before =>
    exact (nodup_eraseDups _).map fun _ _ same => (List.cons.inj same).1

theorem nodup_trailsOf (length : Nat) : (graph.trailsOf query length).Nodup := by
  induction length with
  | zero =>
    exact (List.nodup_range.filter _).map fun _ _ same => (List.cons.inj same).1
  | succ length ih =>
    refine List.pairwise_flatMap.2 ⟨fun trail _ => nodup_extensions trail, ?_⟩
    refine ih.imp fun differ longer inside longer' inside' same => differ ?_
    rw [← (length_of_mem_extensions inside).1, ← (length_of_mem_extensions inside').1, same]

theorem nodup_allTrails (maxDepth : Nat) : (graph.allTrails query maxDepth).Nodup := by
  refine List.pairwise_flatMap.2 ⟨fun length _ => nodup_trailsOf length, ?_⟩
  refine List.nodup_range.imp fun differ trail inside trail' inside' same => differ ?_
  have one := length_of_mem_trailsOf inside
  have two := length_of_mem_trailsOf inside'
  rw [same] at one
  omega

theorem flatMap_longerTrails (maxDepth length : Nat) :
    (graph.trailsOf query length).flatMap (graph.longerTrails query maxDepth) =
      if length < maxDepth then graph.trailsOf query (length + 1) else [] := by
  have each : ∀ trail ∈ graph.trailsOf query length, graph.longerTrails query maxDepth trail =
      if length < maxDepth then graph.extensions query trail else [] := by
    intro trail inside
    rw [longerTrails, length_of_mem_trailsOf inside]
    rfl
  rw [List.flatMap_congr each]
  split
  · rfl
  · simp

theorem unfolding_allTrails (graph : Graph) (query : Query) (maxDepth : Nat) :
    Unfolding (graph.longerTrails query maxDepth) List.length (graph.trailsOf query 0)
      (graph.allTrails query maxDepth) := by
  refine ⟨?whole, ?rank_extend, ?sorted⟩
  case whole =>
    have shorter : (List.range maxDepth).flatMap (fun length =>
        if length < maxDepth then graph.trailsOf query (length + 1) else []) =
          (List.range maxDepth).flatMap fun length => graph.trailsOf query (length + 1) :=
      List.flatMap_congr fun length inside => if_pos (List.mem_range.1 inside)
    have longer : (graph.allTrails query maxDepth).flatMap (graph.longerTrails query maxDepth) =
        (List.range maxDepth).flatMap fun length => graph.trailsOf query (length + 1) := by
      simp only [allTrails, List.flatMap_assoc, flatMap_longerTrails, List.range_succ,
        List.flatMap_append, shorter]
      simp
    rw [longer, allTrails, List.range_succ_eq_map, List.flatMap_cons, List.flatMap_map]
  case rank_extend =>
    intro trail longer inside
    rw [longerTrails] at inside
    split at inside
    · exact (length_of_mem_extensions inside).2
    · cases inside
  case sorted =>
    have same : ∀ length, ∀ trail ∈ graph.trailsOf query length, trail.length = length + 1 :=
      fun length trail inside => length_of_mem_trailsOf inside
    refine List.pairwise_flatMap.2 ⟨fun length _ => ?_, ?_⟩
    · refine List.pairwise_of_forall_mem_list fun trail inside trail' inside' => ?_
      rw [same length trail inside, same length trail' inside']
    · refine List.pairwise_lt_range.imp fun less trail inside trail' inside' => ?_
      rw [same _ trail inside, same _ trail' inside']
      omega

/-- A path, read from its end. -/
theorem isPath_reverse_iff {maxDepth : Nat} {trail : List Nat} :
    graph.IsPath query maxDepth trail.reverse ↔
      (∃ handle ∈ graph.matches? query, trail.getLast? = some handle) ∧
        trail.IsChain (fun target source => graph.Hop query source target) ∧ trail.Nodup ∧
        trail.length ≤ maxDepth + 1 := by
  constructor
  · rintro ⟨⟨handle, node, head, found, kept⟩, joined, nodup, le⟩
    rw [List.head?_reverse] at head
    exact ⟨⟨handle, mem_matches.2 ⟨node, found, kept⟩, head⟩, List.isChain_reverse.1 joined,
      List.nodup_reverse.1 nodup, by simpa using le⟩
  · rintro ⟨⟨handle, inside, last⟩, joined, nodup, le⟩
    obtain ⟨node, found, kept⟩ := mem_matches.1 inside
    exact ⟨⟨handle, node, by rw [List.head?_reverse, last], found, kept⟩,
      List.isChain_reverse.2 joined, List.nodup_reverse.2 nodup, by simpa using le⟩

/-- The trails with a number of edges are the paths with that number of edges, from their ends. -/
theorem WellFormed.mem_trailsOf (formed : graph.WellFormed) {length : Nat} {trail : List Nat} :
    trail ∈ graph.trailsOf query length ↔
      trail.length = length + 1 ∧ graph.IsPath query length trail.reverse := by
  rw [isPath_reverse_iff]
  induction length generalizing trail with
  | zero =>
    rw [trailsOf, List.mem_map]
    constructor
    · rintro ⟨handle, inside, rfl⟩
      exact ⟨rfl, ⟨handle, inside, rfl⟩, .singleton handle, by simp, Nat.le_refl _⟩
    · rintro ⟨one, ⟨handle, inside, last⟩, -⟩
      obtain ⟨only, rfl⟩ := List.length_eq_one_iff.1 one
      obtain rfl := Option.some.inj last
      exact ⟨only, inside, rfl⟩
  | succ length ih =>
    simp only [trailsOf, List.mem_flatMap, formed.mem_extensions, ih]
    constructor
    · rintro ⟨trail, ⟨size, start, joined, nodup, le⟩, last, before, target, rfl, rfl, fresh, leads⟩
      exact ⟨by rw [List.length_cons, size], by rwa [List.getLast?_cons_cons],
        .cons_cons leads joined, List.nodup_cons.2 ⟨fresh, nodup⟩, by simpa using le⟩
    · rintro ⟨size, start, joined, nodup, le⟩
      match trail, size with
      | target :: last :: before, size =>
        rw [List.getLast?_cons_cons] at start
        obtain ⟨leads, joined⟩ := List.isChain_cons_cons.1 joined
        obtain ⟨fresh, nodup⟩ := List.nodup_cons.1 nodup
        exact ⟨last :: before, ⟨by simpa using size, start, joined, nodup, by simpa using le⟩,
          last, before, target, rfl, rfl, fresh, leads⟩

theorem WellFormed.mem_allTrails (formed : graph.WellFormed) {maxDepth : Nat} {trail : List Nat} :
    trail ∈ graph.allTrails query maxDepth ↔ graph.IsPath query maxDepth trail.reverse := by
  simp only [allTrails, List.mem_flatMap, List.mem_range, formed.mem_trailsOf, isPath_reverse_iff]
  constructor
  · rintro ⟨length, less, size, start, joined, nodup, le⟩
    exact ⟨start, joined, nodup, by omega⟩
  · rintro ⟨start, joined, nodup, le⟩
    have some : trail.length ≠ 0 := by
      rintro none
      obtain ⟨handle, -, last⟩ := start
      rw [List.length_eq_zero_iff.1 none] at last
      cases last
    exact ⟨trail.length - 1, by omega, by omega, start, joined, nodup, by omega⟩

/-! ## The search -/

theorem take_trails {maxDepth limit remaining next : Nat} {found : Array (List Nat)}
    (left : next + remaining = limit)
    (search : CappedSearch (graph.longerTrails query maxDepth) (graph.trailsOf query 0)
      (graph.allTrails query maxDepth) limit next found.toList) :
    (graph.trails query maxDepth limit remaining next found).toList.take limit =
      (graph.allTrails query maxDepth).take limit := by
  have unfolding := unfolding_allTrails graph query maxDepth
  induction remaining generalizing next found with
  | zero => exact search.take_eq unfolding (by omega) (.inl (by omega))
  | succ remaining ih =>
    rw [trails]
    split
    · next beyond =>
      rw [Array.getElem?_eq_none_iff] at beyond
      exact search.take_eq unfolding (by omega) (.inr (by simpa using beyond))
    · next trail here =>
      refine ih (by omega) ?_
      have further := search.next unfolding (by simpa using here)
      simpa [longerTrails] using further

end Graph

/-- A search for paths on its way, with the last node of each path first. -/
structure PathSearch where
  /-- The paths that have not been extended. -/
  queue : List (List Nat)
  paths : List (List Nat)

namespace PathSearch

/-- List the path in front, and let its extensions wait as long as there is room for them. -/
def step (graph : Graph) (query : Query) (maxDepth limit : Nat) (search : PathSearch) :
    Option PathSearch :=
  match search.queue with
  | [] => none
  | trail :: rest =>
    if limit ≤ search.paths.length then none
    else
      let longer := if trail.length ≤ maxDepth then graph.extensions query trail else []
      some
        { queue := rest ++ longer.take (limit - (search.paths.length + rest.length))
          paths := search.paths ++ [trail] }

/-- A search that begins at the nodes that a query keeps. -/
def start (graph : Graph) (query : Query) : PathSearch where
  queue := (graph.matches? query).map fun handle => [handle]
  paths := []

/-- The search ends, with the first paths of the whole list. -/
theorem halts {graph : Graph} {query : Query} {maxDepth limit : Nat} {queue paths : List (List Nat)}
    (le : paths.length ≤ limit)
    (capped : CappedSearch (graph.longerTrails query maxDepth) (graph.trailsOf query 0)
      (graph.allTrails query maxDepth) limit paths.length (paths ++ queue)) :
    ∃ last, Halts (step graph query maxDepth limit) ⟨queue, paths⟩ last ∧
      last.paths = (graph.allTrails query maxDepth).take limit := by
  have unfolding := Graph.unfolding_allTrails graph query maxDepth
  induction left : limit - paths.length using Nat.strongRecOn generalizing queue paths with
  | ind left ih =>
    cases queue with
    | nil =>
      refine ⟨⟨[], paths⟩, .ended rfl, ?_⟩
      have same := capped.take_eq unfolding le (.inr (by simp))
      rwa [List.append_nil, List.take_of_length_le le] at same
    | cons trail rest =>
      by_cases full : limit ≤ paths.length
      · refine ⟨⟨trail :: rest, paths⟩, .ended (by simp [step, full]), ?_⟩
        have same := capped.take_eq unfolding le (.inl (Nat.le_antisymm le full))
        rwa [List.take_append_of_le_length full, List.take_of_length_le le] at same
      · have here : (paths ++ trail :: rest)[paths.length]? = some trail := by simp
        have further := capped.next unfolding here
        -- The path in front is listed now, so one place fewer is taken by those that wait.
        have room : limit + 1 - (paths ++ trail :: rest).length =
            limit - (paths.length + rest.length) := by
          rw [List.length_append, List.length_cons]
          omega
        rw [room] at further
        have le' : (paths ++ [trail]).length ≤ limit := by
          rw [List.length_append, List.length_singleton]
          omega
        obtain ⟨last, halts, same⟩ := ih (limit - (paths ++ [trail]).length)
          (by rw [List.length_append, List.length_singleton]; omega) le'
          (by simpa using further) rfl
        exact ⟨last, .next (by simp [step, full, Graph.longerTrails]) halts, same⟩

end PathSearch

namespace Graph

/-- The paths that a query lists: of all paths that it asks for, each once and shorter ones first, as
many as the cap allows, from the first one on. A search by a queue, capped in the same way, ends with
the same paths. -/
theorem Reached.run_paths {graph : Graph} (reached : graph.Reached) {query : Query} {maxDepth : Nat}
    (asked : query.maxDepth = some maxDepth) : ∃ all : List (List Nat),
      all.Nodup ∧ (∀ path, path ∈ all ↔ graph.IsPath query maxDepth path) ∧
        (all.Pairwise fun first second => first.length ≤ second.length) ∧
        ∀ limit, (graph.run query limit).paths = some (all.take limit) ∧
          ∃ last, Halts (PathSearch.step graph query maxDepth limit) (PathSearch.start graph query)
            last ∧ last.paths.map List.reverse = all.take limit := by
  have formed := reached.wellFormed
  have unfolding := unfolding_allTrails graph query maxDepth
  refine ⟨(graph.allTrails query maxDepth).map List.reverse, ?_, ?_, ?_, fun limit => ⟨?_, ?_⟩⟩
  · exact (nodup_allTrails maxDepth).map List.reverse_injective
  · intro path
    rw [List.mem_map]
    constructor
    · rintro ⟨trail, inside, rfl⟩
      exact formed.mem_allTrails.1 inside
    · intro path_
      exact ⟨path.reverse, formed.mem_allTrails.2 (by rwa [List.reverse_reverse]),
        List.reverse_reverse path⟩
  · rw [List.pairwise_map]
    simpa using unfolding.sorted
  · have search : CappedSearch (graph.longerTrails query maxDepth) (graph.trailsOf query 0)
        (graph.allTrails query maxDepth) limit 0 (graph.trailsOf query 0).toArray.toList := .start
    have same := take_trails (Nat.zero_add limit) search
    rw [run, asked, ← List.map_take, ← same]
    rfl
  · obtain ⟨last, halts, same⟩ : ∃ last, Halts (PathSearch.step graph query maxDepth limit)
        (PathSearch.start graph query) last ∧
          last.paths = (graph.allTrails query maxDepth).take limit :=
      PathSearch.halts (Nat.zero_le limit) .start
    exact ⟨last, halts, by rw [same, List.map_take]⟩

/-- The paths from the outermost function of the ring. Two edges lead from the second function to the first
one, and make one path; no path goes round the ring; the longest path is cut off. -/
theorem run_paths_callRing : callRing.Reached ∧
    (∀ path, path ∈ [[3], [3, 2], [3, 2, 1], [3, 2, 1, 0]] ↔
      callRing.IsPath { pattern := some "k", maxDepth := some 4 } 4 path) ∧
      (callRing.run { pattern := some "k", maxDepth := some 4 } 3).paths =
        some [[3], [3, 2], [3, 2, 1]] ∧
      ∃ last, Halts (PathSearch.step callRing { pattern := some "k", maxDepth := some 4 } 4 3)
          (PathSearch.start callRing { pattern := some "k", maxDepth := some 4 }) last ∧
        last.paths.map List.reverse = [[3], [3, 2], [3, 2, 1]] := by
  let query : Query := { pattern := some "k", maxDepth := some 4 }
  obtain ⟨all, -, members, -, found⟩ :=
    reached_callRing.run_paths (rfl : query.maxDepth = some 4)
  have kept : callRing.matches? query = [3] := by
    simp only [matches?, nodes_callRing]
    decide
  have listed : all.take 5 = [[3], [3, 2], [3, 2, 1], [3, 2, 1, 0]] := by
    rw [← Option.some.injEq, ← (found 5).1]
    simp [query, run, paths, kept, trails, extensions, edgesFrom, arcs_callRing, Query.acceptsEdge,
      List.eraseDups_cons]
  have few : (all.take 5).length = 4 := congrArg List.length listed
  rw [List.length_take] at few
  rw [List.take_of_length_le (by omega)] at listed
  obtain ⟨cut, queue⟩ := found 3
  rw [listed] at members cut queue
  exact ⟨reached_callRing, members, cut, queue⟩

end Graph

end CodeGraph

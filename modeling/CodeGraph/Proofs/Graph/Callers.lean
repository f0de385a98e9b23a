import Mathlib.Data.List.Perm.Subperm
import CodeGraph.Proofs.Graph.Reached
import CodeGraph.Proofs.Graph.Search
import CodeGraph.Proofs.Halts

/-!
# Callers by distance

A node is as far from the functions of a name as the shortest path of calls to one of them is long
(`Graph.CallDistance`). `Graph.transitiveCallers` goes by rounds, and the rounds go by distance: what
is new in a round are the nodes that are one call farther away than those of the round before
(`Graph.Level.next`). On the way there is a call from each distance, so there are at most as many
rounds that find somebody as there are edges (`Graph.WellFormed.callDistance_le`).

The rounds are a queue in disguise. `CallerSearch` keeps the functions whose callers are still to be
looked at in a queue, each with the number of calls that led to it, and is held up by the bound one
function at a time. It comes to an end, and finds the same callers in the same order
(`Graph.Level.halts`).
-/

namespace CodeGraph

/-! ## A search by a queue -/

/-- A search for callers on its way. -/
structure CallerSearch where
  /-- The functions whose callers have not been looked at, with the number of calls from each. -/
  queue : List (Nat × Nat)
  visited : List Nat
  found : List Nat

namespace CallerSearch

/-- Take up callers that are a number of calls away. -/
def extend (search : CallerSearch) (depth : Nat) (callers : List Nat) : CallerSearch where
  queue := search.queue ++ callers.map fun caller => (caller, depth)
  visited := search.visited ++ callers
  found := search.found ++ callers

/-- Take up a caller, if it has not been visited. -/
def visit (depth : Nat) (search : CallerSearch) (caller : Nat) : CallerSearch :=
  if search.visited.contains caller then search else search.extend depth [caller]

/-- Look at the callers of the function in front, unless it is as far away as allowed. -/
def step (graph : Graph) (bound : Option Nat) (search : CallerSearch) : Option CallerSearch :=
  match search.queue with
  | [] => none
  | (handle, depth) :: rest =>
    if bound.any fun limit => limit ≤ depth then some { search with queue := rest }
    else some ((graph.callersOf handle).foldl (visit (depth + 1)) { search with queue := rest })

/-- A search that begins at the functions of a name. -/
def start (graph : Graph) (name : String) : CallerSearch where
  queue := (graph.functionsNamed name).map fun handle => (handle, 0)
  visited := graph.functionsNamed name
  found := []

theorem extend_nil (search : CallerSearch) (depth : Nat) : search.extend depth [] = search := by
  simp [extend]

theorem extend_extend (search : CallerSearch) (depth : Nat) (callers more : List Nat) :
    (search.extend depth callers).extend depth more = search.extend depth (callers ++ more) := by
  simp [extend]

end CallerSearch

namespace Graph

/-! ## New callers -/

/-- The callers of some functions that are not among those seen, each once. -/
def freshCallers (graph : Graph) (frontier seen : List Nat) : List Nat :=
  ((frontier.flatMap graph.callersOf).filter fun handle => !seen.contains handle).eraseDups

variable {graph : Graph}

theorem freshCallers_nil (seen : List Nat) : graph.freshCallers [] seen = [] := rfl

theorem mem_freshCallers {frontier seen : List Nat} {caller : Nat} :
    caller ∈ graph.freshCallers frontier seen ↔
      (∃ handle ∈ frontier, caller ∈ graph.callersOf handle) ∧ caller ∉ seen := by
  simp [freshCallers]

/-- The new callers of one function more, first. -/
theorem freshCallers_cons (handle : Nat) (frontier seen : List Nat) :
    graph.freshCallers (handle :: frontier) seen =
      graph.freshCallers [handle] seen ++
        graph.freshCallers frontier (seen ++ graph.freshCallers [handle] seen) := by
  have others : ∀ callers more : List Nat,
      (more.filter fun caller => !seen.contains caller).removeAll
          (callers.filter fun caller => !seen.contains caller) =
        more.filter fun caller => !(seen ++
          (callers.filter fun caller => !seen.contains caller).eraseDups).contains caller := by
    intro callers more
    rw [List.removeAll, List.filter_filter]
    refine List.filter_congr fun caller _ => ?_
    by_cases old : caller ∈ seen <;> simp [old]
  simp only [freshCallers, List.flatMap_cons, List.flatMap_nil, List.append_nil, List.filter_append,
    List.eraseDups_append, others]

/-- A round finds what is new, and goes on from there. -/
theorem callersAround_succ (rounds : Nat) (frontier seen : List Nat) :
    graph.callersAround (rounds + 1) frontier seen =
      graph.freshCallers frontier seen ++
        graph.callersAround rounds (graph.freshCallers frontier seen)
          (seen ++ graph.freshCallers frontier seen) := by
  have nobody : ∀ rounds seen, graph.callersAround rounds [] seen = [] := by
    rintro (_ | rounds) seen <;> rfl
  change (if (graph.freshCallers frontier seen).isEmpty then [] else _) = _
  split
  · next none => rw [List.isEmpty_iff.1 none, nobody, List.append_nil]
  · rfl

/-- More rounds find more callers, behind those that fewer rounds find. -/
theorem callersAround_isPrefix {rounds more : Nat} (le : rounds ≤ more) (frontier seen : List Nat) :
    graph.callersAround rounds frontier seen <+: graph.callersAround more frontier seen := by
  induction rounds generalizing more frontier seen with
  | zero => exact List.nil_prefix
  | succ rounds ih =>
    obtain ⟨more, rfl⟩ : ∃ fewer, more = fewer + 1 := ⟨more - 1, by omega⟩
    rw [callersAround_succ, callersAround_succ]
    exact (List.prefix_append_right_inj _).2 (ih (by omega) _ _)

/-! ## Distance -/

/-- `graph.CallPath length caller handle`: `length` calls, one after the other, lead from `caller` to
`handle`.

* `here`: no call at all.
* `call`: a call, and the calls from there on. -/
inductive CallPath (graph : Graph) : Nat → Nat → Nat → Prop
  | here (handle : Nat) : CallPath graph 0 handle handle
  | call {length caller middle handle : Nat} {tag : Option String} :
      graph.HasEdge .call caller middle tag → CallPath graph length middle handle →
      CallPath graph (length + 1) caller handle

/-- A number of calls lead from a node to some function of a name. -/
def CallsNamed (graph : Graph) (name : String) (handle length : Nat) : Prop :=
  ∃ seed ∈ graph.functionsNamed name, graph.CallPath length handle seed

/-- The length of the shortest paths of calls from a node to functions of a name. -/
def CallDistance (graph : Graph) (name : String) (handle length : Nat) : Prop :=
  graph.CallsNamed name handle length ∧
    ∀ shorter, graph.CallsNamed name handle shorter → length ≤ shorter

variable {name : String}

namespace CallDistance

theorem unique {handle length length' : Nat} (distance : graph.CallDistance name handle length)
    (distance' : graph.CallDistance name handle length') : length = length' :=
  Nat.le_antisymm (distance.2 _ distance'.1) (distance'.2 _ distance.1)

/-- The functions of the name are the nodes of distance zero. -/
theorem zero_iff {handle : Nat} :
    graph.CallDistance name handle 0 ↔ handle ∈ graph.functionsNamed name := by
  constructor
  · rintro ⟨⟨seed, named, path⟩, -⟩
    cases path
    exact named
  · intro named
    exact ⟨⟨handle, named, .here handle⟩, fun _ _ => Nat.zero_le _⟩

/-- Whoever gets to a function of the name at all is at some distance. -/
theorem exists_le {handle length : Nat} (calls : graph.CallsNamed name handle length) :
    ∃ distance ≤ length, graph.CallDistance name handle distance := by
  induction length using Nat.strongRecOn with
  | ind length ih =>
    by_cases shortest : ∀ shorter, graph.CallsNamed name handle shorter → length ≤ shorter
    · exact ⟨length, Nat.le_refl _, calls, shortest⟩
    · push Not at shortest
      obtain ⟨shorter, calls, less⟩ := shortest
      obtain ⟨distance, le, found⟩ := ih shorter less calls
      exact ⟨distance, by omega, found⟩

/-- A caller is at most one call farther away than the function that it calls. -/
theorem exists_of_call {caller handle length : Nat} {tag : Option String}
    (has : graph.HasEdge .call caller handle tag)
    (distance : graph.CallDistance name handle length) :
    ∃ farther ≤ length + 1, graph.CallDistance name caller farther := by
  obtain ⟨⟨seed, named, path⟩, -⟩ := distance
  exact exists_le ⟨seed, named, .call has path⟩

/-- The first call of a shortest path leads one call nearer. -/
theorem nearer {caller length : Nat} (distance : graph.CallDistance name caller (length + 1)) :
    ∃ handle tag, graph.HasEdge .call caller handle tag ∧
      graph.CallDistance name handle length := by
  obtain ⟨⟨seed, named, path⟩, shortest⟩ := distance
  cases path with
  | @call _ _ handle _ tag has path =>
    refine ⟨handle, tag, has, ⟨seed, named, path⟩, fun shorter calls => ?_⟩
    obtain ⟨seed', named', path'⟩ := calls
    have le := shortest (shorter + 1) ⟨seed', named', .call has path'⟩
    omega

end CallDistance

/-- The calls on a shortest path come from different nodes. -/
theorem exists_callers {handle length : Nat} (distance : graph.CallDistance name handle length) :
    ∃ callers : List Nat, callers.length = length ∧ callers.Nodup ∧ ∀ caller ∈ callers,
      (∃ middle tag, graph.HasEdge .call caller middle tag) ∧
        ∃ nearer ≤ length, graph.CallDistance name caller nearer := by
  induction length generalizing handle with
  | zero => exact ⟨[], rfl, .nil, by simp⟩
  | succ length ih =>
    obtain ⟨middle, tag, has, distance'⟩ := distance.nearer
    obtain ⟨callers, same, apart, each⟩ := ih distance'
    refine ⟨handle :: callers, by simp [same], ?_, ?_⟩
    · refine List.nodup_cons.2 ⟨fun inside => ?_, apart⟩
      obtain ⟨-, nearer, le, distance''⟩ := each handle inside
      have := distance.unique distance''
      omega
    · intro caller inside
      rcases List.mem_cons.1 inside with rfl | inside
      · exact ⟨⟨middle, tag, has⟩, length + 1, Nat.le_refl _, distance⟩
      · obtain ⟨calls, nearer, le, found⟩ := each caller inside
        exact ⟨calls, nearer, by omega, found⟩

/-- Nobody is farther away than there are edges. -/
theorem callDistance_le {handle length : Nat} (distance : graph.CallDistance name handle length) :
    length ≤ graph.arcs.size := by
  obtain ⟨callers, rfl, apart, each⟩ := exists_callers distance
  have sources : callers ⊆ graph.edges.map Edge.source := by
    intro caller inside
    obtain ⟨⟨middle, tag, edge, there, -, source, -⟩, -⟩ := each caller inside
    exact List.mem_map.2 ⟨edge, there, source⟩
  have le := (List.subperm_of_subset apart sources).length_le
  simpa [Graph.edges] using le

/-! ## Rounds -/

/-- Where a round begins: at the nodes of one distance, with all nodes seen that are no farther. -/
structure Level (graph : Graph) (name : String) (depth : Nat) (frontier seen : List Nat) :
    Prop where
  frontier : ∀ handle, handle ∈ frontier ↔ graph.CallDistance name handle depth
  seen : ∀ handle, handle ∈ seen ↔ ∃ nearer ≤ depth, graph.CallDistance name handle nearer

/-- A node is no farther away than another. -/
def NoFarther (graph : Graph) (name : String) (near far : Nat) : Prop :=
  ∀ length length', graph.CallDistance name near length → graph.CallDistance name far length' →
    length ≤ length'

namespace Level

variable {depth : Nat} {frontier seen : List Nat}

theorem start (graph : Graph) (name : String) :
    graph.Level name 0 (graph.functionsNamed name) (graph.functionsNamed name) := by
  refine ⟨fun handle => CallDistance.zero_iff.symm, fun handle => ?_⟩
  rw [← CallDistance.zero_iff]
  constructor
  · exact fun distance => ⟨0, Nat.le_refl 0, distance⟩
  · rintro ⟨nearer, le, distance⟩
    rwa [Nat.le_zero.1 le] at distance

variable (formed : graph.WellFormed) (level : graph.Level name depth frontier seen)
include formed level

/-- What is new in a round is one call farther away. -/
theorem mem_fresh (caller : Nat) :
    caller ∈ graph.freshCallers frontier seen ↔ graph.CallDistance name caller (depth + 1) := by
  rw [mem_freshCallers, level.seen]
  constructor
  · rintro ⟨⟨handle, inside, calls⟩, new⟩
    obtain ⟨tag, has⟩ := formed.mem_callersOf.1 calls
    obtain ⟨farther, le, distance⟩ :=
      CallDistance.exists_of_call has ((level.frontier handle).1 inside)
    rcases Nat.lt_or_eq_of_le le with less | rfl
    · exact absurd ⟨farther, by omega, distance⟩ new
    · exact distance
  · intro distance
    obtain ⟨handle, tag, has, nearer⟩ := distance.nearer
    refine ⟨⟨handle, (level.frontier handle).2 nearer, formed.mem_callersOf.2 ⟨tag, has⟩⟩, ?_⟩
    rintro ⟨other, le, distance'⟩
    have := distance.unique distance'
    omega

theorem next : graph.Level name (depth + 1) (graph.freshCallers frontier seen)
    (seen ++ graph.freshCallers frontier seen) := by
  refine ⟨level.mem_fresh formed, fun handle => ?_⟩
  rw [List.mem_append, level.seen, level.mem_fresh formed]
  constructor
  · rintro (⟨nearer, le, distance⟩ | distance)
    · exact ⟨nearer, by omega, distance⟩
    · exact ⟨depth + 1, Nat.le_refl _, distance⟩
  · rintro ⟨nearer, le, distance⟩
    rcases Nat.lt_or_eq_of_le le with less | rfl
    · exact .inl ⟨nearer, by omega, distance⟩
    · exact .inr distance

/-- The rounds find everybody up to the distance that they get to. -/
theorem mem_callersAround (rounds caller : Nat) :
    caller ∈ graph.callersAround rounds frontier seen ↔
      ∃ length, graph.CallDistance name caller length ∧ depth < length ∧
        length ≤ depth + rounds := by
  induction rounds generalizing depth frontier seen with
  | zero =>
    simp only [callersAround, List.not_mem_nil, false_iff]
    rintro ⟨length, -, less, le⟩
    omega
  | succ rounds ih =>
    rw [callersAround_succ, List.mem_append, level.mem_fresh formed, ih (level.next formed)]
    constructor
    · rintro (distance | ⟨length, distance, less, le⟩)
      · exact ⟨depth + 1, distance, by omega, by omega⟩
      · exact ⟨length, distance, by omega, by omega⟩
    · rintro ⟨length, distance, less, le⟩
      by_cases here : length = depth + 1
      · subst here
        exact .inl distance
      · exact .inr ⟨length, distance, by omega, by omega⟩

theorem nodup_callersAround (rounds : Nat) :
    (graph.callersAround rounds frontier seen).Nodup := by
  induction rounds generalizing depth frontier seen with
  | zero => exact .nil
  | succ rounds ih =>
    rw [callersAround_succ]
    refine List.nodup_append'.2 ⟨nodup_eraseDups _, ih (level.next formed), ?_⟩
    intro caller fresh later
    obtain ⟨length, distance, less, -⟩ :=
      ((level.next formed).mem_callersAround formed rounds caller).1 later
    have := distance.unique ((level.mem_fresh formed caller).1 fresh)
    omega

/-- Nearer callers are found earlier. -/
theorem pairwise_callersAround (rounds : Nat) :
    (graph.callersAround rounds frontier seen).Pairwise (graph.NoFarther name) := by
  induction rounds generalizing depth frontier seen with
  | zero => exact .nil
  | succ rounds ih =>
    have here : ∀ near ∈ graph.freshCallers frontier seen, ∀ length,
        graph.CallDistance name near length → length = depth + 1 :=
      fun near fresh length distance =>
        distance.unique ((level.mem_fresh formed near).1 fresh)
    rw [callersAround_succ]
    refine List.pairwise_append.2 ⟨?_, ih (level.next formed), ?_⟩
    · refine List.pairwise_of_forall_mem_list fun near fresh far fresh' length length' one two => ?_
      rw [here near fresh length one, here far fresh' length' two]
    · intro near fresh far later length length' one two
      obtain ⟨found, distance, less, -⟩ :=
        ((level.next formed).mem_callersAround formed rounds far).1 later
      rw [here near fresh length one, two.unique distance]
      omega

end Level

/-! ## The queue -/

theorem foldl_visit (depth : Nat) (callers : List Nat) (search : CallerSearch) :
    callers.foldl (CallerSearch.visit depth) search = search.extend depth
      ((callers.filter fun caller => !search.visited.contains caller).eraseDups) := by
  induction callers generalizing search with
  | nil => exact (search.extend_nil depth).symm
  | cons caller callers ih =>
    rw [List.foldl_cons, ih, CallerSearch.visit]
    split
    · next old => rw [List.filter_cons_of_neg (by simpa using old)]
    · next new =>
      rw [List.filter_cons_of_pos (by simpa using new), List.eraseDups_cons,
        CallerSearch.extend_extend, List.filter_filter, List.singleton_append]
      congr 3
      refine List.filter_congr fun other _ => ?_
      by_cases same : other = caller <;> simp [CallerSearch.extend, same]

section Queue

variable {bound : Option Nat} {depth : Nat} {frontier visited found : List Nat} {last : CallerSearch}

/-- The functions of one distance are looked at one after the other, as in a round. -/
theorem halts_of_round (room : bound.any (fun limit => limit ≤ depth) = false) (next : List Nat)
    (halts : Halts (CallerSearch.step graph bound)
      (CallerSearch.extend ⟨next.map fun handle => (handle, depth + 1), visited, found⟩ (depth + 1)
        (graph.freshCallers frontier visited)) last) :
    Halts (CallerSearch.step graph bound)
      ⟨(frontier.map fun handle => (handle, depth)) ++ next.map fun handle => (handle, depth + 1),
        visited, found⟩ last := by
  induction frontier generalizing next visited found with
  | nil =>
    rw [freshCallers_nil, CallerSearch.extend_nil] at halts
    exact halts
  | cons handle frontier ih =>
    rw [freshCallers_cons, ← CallerSearch.extend_extend] at halts
    let fresh := graph.freshCallers [handle] visited
    refine .next ?_ (@ih (visited ++ fresh) (found ++ fresh) (next ++ fresh) ?_)
    · simp [CallerSearch.step, room, foldl_visit, freshCallers, CallerSearch.extend, fresh]
    · simpa [CallerSearch.extend, fresh] using halts

/-- All functions of one distance are looked at before any of the next. -/
theorem halts_of_next_round (room : bound.any (fun limit => limit ≤ depth) = false)
    (halts : Halts (CallerSearch.step graph bound)
      ⟨(graph.freshCallers frontier visited).map fun handle => (handle, depth + 1),
        visited ++ graph.freshCallers frontier visited,
        found ++ graph.freshCallers frontier visited⟩ last) :
    Halts (CallerSearch.step graph bound)
      ⟨frontier.map fun handle => (handle, depth), visited, found⟩ last := by
  have round := halts_of_round room [] halts
  rwa [List.map_nil, List.append_nil] at round

/-- Functions that are as far away as allowed are passed over. -/
theorem halts_at_bound (full : bound.any (fun limit => limit ≤ depth) = true) :
    Halts (CallerSearch.step graph bound)
      ⟨frontier.map fun handle => (handle, depth), visited, found⟩ ⟨[], visited, found⟩ := by
  induction frontier with
  | nil => exact .ended rfl
  | cons handle frontier ih => exact .next (by simp [CallerSearch.step, full]) ih

/-- The search by a queue ends, and finds what the rounds find. There is nobody beyond the last
round, because of the bound or because all distances are covered. -/
theorem Level.halts (formed : graph.WellFormed) (level : graph.Level name depth frontier visited)
    (rounds : Nat) (found : List Nat) (enough : bound = some (depth + rounds) ∨
      bound = none ∧ ∀ handle length, graph.CallDistance name handle length →
        length ≤ depth + rounds) :
    ∃ last, Halts (CallerSearch.step graph bound)
      ⟨frontier.map fun handle => (handle, depth), visited, found⟩ last ∧
        last.found = found ++ graph.callersAround rounds frontier visited := by
  induction rounds generalizing depth frontier visited found with
  | zero =>
    rcases enough with rfl | ⟨rfl, all⟩
    · refine ⟨⟨[], visited, found⟩, halts_at_bound (by simp), ?_⟩
      exact (List.append_nil found).symm
    · have nobody : graph.freshCallers frontier visited = [] := by
        refine List.eq_nil_iff_forall_not_mem.2 fun caller fresh => ?_
        have := all caller _ ((level.mem_fresh formed caller).1 fresh)
        omega
      refine ⟨⟨[], visited, found⟩, halts_of_next_round rfl ?_, (List.append_nil found).symm⟩
      rw [nobody, List.append_nil, List.append_nil]
      exact .ended rfl
  | succ rounds ih =>
    have room : bound.any (fun limit => limit ≤ depth) = false := by
      rcases enough with rfl | ⟨rfl, -⟩ <;> simp
    rw [show depth + (rounds + 1) = depth + 1 + rounds by omega] at enough
    obtain ⟨last, halts, same⟩ := ih (level.next formed)
      (found ++ graph.freshCallers frontier visited) enough
    refine ⟨last, halts_of_next_round room halts, ?_⟩
    rw [same, callersAround_succ, List.append_assoc]

end Queue

/-! ## Transitive callers -/

/-- Rounds beyond the number of edges find nobody. -/
theorem WellFormed.callersAround_eq (formed : graph.WellFormed) {rounds : Nat}
    (le : graph.arcs.size ≤ rounds) :
    graph.callersAround rounds (graph.functionsNamed name) (graph.functionsNamed name) =
      graph.callersAround graph.arcs.size (graph.functionsNamed name)
        (graph.functionsNamed name) := by
  have level := Level.start graph name
  have apart := level.nodup_callersAround formed rounds
  have mem := level.mem_callersAround formed rounds
  obtain ⟨more, same⟩ := callersAround_isPrefix le (graph.functionsNamed name)
    (graph.functionsNamed name)
  rw [← same] at apart mem ⊢
  have nobody : more = [] := by
    refine List.eq_nil_iff_forall_not_mem.2 fun caller inside => ?_
    obtain ⟨length, distance, less, -⟩ := (mem caller).1 (List.mem_append_right _ inside)
    have near := callDistance_le distance
    exact (List.nodup_append'.1 apart).2.2
      ((level.mem_callersAround formed _ caller).2 ⟨length, distance, less, by omega⟩) inside
  rw [nobody, List.append_nil]

/-- A wider bound only adds callers, behind the others. Rounds beyond the number of edges count for
nothing, so this holds of the widest bound, none at all, too. -/
theorem WellFormed.transitiveCallers_isPrefix (formed : graph.WellFormed) (name : String)
    {bound wider : Option Nat} (le : ∀ limit ∈ wider, ∃ less ∈ bound, less ≤ limit) :
    graph.transitiveCallers name bound <+: graph.transitiveCallers name wider := by
  refine List.IsPrefix.filterMap _ ?_
  cases bound with
  | none =>
    cases wider with
    | none => exact List.prefix_rfl
    | some limit =>
      obtain ⟨less, none, -⟩ := le limit rfl
      cases none
  | some limit =>
    cases wider with
    | none =>
      rcases Nat.le_total limit graph.arcs.size with few | many
      · exact callersAround_isPrefix few _ _
      · rewrite [Option.getD_some, Option.getD_none, formed.callersAround_eq many]
        exact List.prefix_rfl
    | some limit' =>
      obtain ⟨less, same, le⟩ := le limit' rfl
      obtain rfl := Option.some.inj same
      exact callersAround_isPrefix le _ _

theorem map_node? {handles : List Nat}
    (all : ∀ handle ∈ handles, ∃ node, graph.node? handle = some node) :
    handles.map graph.node? = (handles.filterMap graph.node?).map some := by
  induction handles with
  | nil => rfl
  | cons handle handles ih =>
    obtain ⟨node, found⟩ := all handle List.mem_cons_self
    rw [List.map_cons, List.filterMap_cons, found,
      ih fun other inside => all other (List.mem_cons_of_mem _ inside), List.map_cons]

/-- The callers of the functions of a name, at once or through others, are found once each and the
nearer ones first, and exactly those up to the bound. A search by a queue ends, and finds them in
the same order; a wider bound only finds more of them. -/
theorem Reached.transitiveCallers_by_distance {graph : Graph} (reached : graph.Reached)
    (name : String) (bound : Option Nat) : ∃ callers : List Nat,
    callers.map graph.node? = (graph.transitiveCallers name bound).map some ∧
      callers.Nodup ∧
      (∀ handle, handle ∈ callers ↔ handle ∉ graph.functionsNamed name ∧
        ∃ length, graph.CallDistance name handle length ∧ 1 ≤ length ∧
          ∀ limit ∈ bound, length ≤ limit) ∧
      callers.Pairwise (graph.NoFarther name) ∧
      (∃ last, Halts (CallerSearch.step graph bound) (CallerSearch.start graph name) last ∧
        last.found = callers) ∧
      ∀ wider : Option Nat, (∀ limit ∈ wider, ∃ less ∈ bound, less ≤ limit) →
        graph.transitiveCallers name bound <+: graph.transitiveCallers name wider := by
  have formed := reached.wellFormed
  have level := Level.start graph name
  have covered : ∀ handle length, graph.CallDistance name handle length →
      ((∀ limit ∈ bound, length ≤ limit) ↔ length ≤ 0 + bound.getD graph.arcs.size) := by
    intro handle length distance
    have near := callDistance_le distance
    cases bound <;> simp [near]
  refine ⟨graph.callersAround (bound.getD graph.arcs.size) (graph.functionsNamed name)
    (graph.functionsNamed name), ?nodes, ?once, ?members, ?order, ?queue, ?widened⟩
  case nodes =>
    refine map_node? fun caller inside => ?_
    obtain ⟨length, distance, less, -⟩ := (level.mem_callersAround formed _ caller).1 inside
    obtain ⟨fewer, rfl⟩ : ∃ fewer, length = fewer + 1 := ⟨length - 1, by omega⟩
    obtain ⟨handle, tag, ⟨edge, -, -, -, -, node, -, there, -⟩, -⟩ := distance.nearer
    exact ⟨node, there⟩
  case once => exact level.nodup_callersAround formed _
  case members =>
    intro handle
    rw [level.mem_callersAround formed]
    constructor
    · rintro ⟨length, distance, less, le⟩
      refine ⟨fun seed => ?_, length, distance, less, (covered handle length distance).2 le⟩
      have := distance.unique (CallDistance.zero_iff.2 seed)
      omega
    · rintro ⟨-, length, distance, less, le⟩
      exact ⟨length, distance, less, (covered handle length distance).1 le⟩
  case order => exact level.pairwise_callersAround formed _
  case queue =>
    have enough : bound = some (0 + bound.getD graph.arcs.size) ∨ bound = none ∧
        ∀ handle length, graph.CallDistance name handle length →
          length ≤ 0 + bound.getD graph.arcs.size := by
      cases bound with
      | none => exact .inr ⟨rfl, fun handle length distance =>
          (covered handle length distance).1 (by simp)⟩
      | some limit => exact .inl (by simp)
    exact level.halts formed _ [] enough
  case widened => exact fun wider le => formed.transitiveCallers_isPrefix name le

/-- Two calls away from the first function of the ring there are two callers, one behind the other. The
function itself is three calls away again, and a third caller is found without the bound only. -/
theorem transitiveCallers_callRing : callRing.Reached ∧
    callRing.transitiveCallers "f" (some 2) = [functionAt "g" 2, functionAt "h" 3] ∧
    callRing.transitiveCallers "f" none =
      [functionAt "g" 2, functionAt "h" 3, functionAt "k" 4] ∧
    ∃ callers : List Nat,
      callers.map callRing.node? = [some (functionAt "g" 2), some (functionAt "h" 3)] ∧
        callers.Nodup ∧
        (∀ handle, handle ∈ callers ↔ handle ∉ callRing.functionsNamed "f" ∧
          ∃ length, callRing.CallDistance "f" handle length ∧ 1 ≤ length ∧ length ≤ 2) ∧
        callers.Pairwise (callRing.NoFarther "f") ∧
        (∃ last, Halts (CallerSearch.step callRing (some 2)) (CallerSearch.start callRing "f") last ∧
          last.found = callers) ∧
        callRing.transitiveCallers "f" (some 2) <+: callRing.transitiveCallers "f" none := by
  have named : callRing.functionsNamed "f" = [0] := by
    simp only [functionsNamed, nodesOfKind, nodes_callRing]
    decide
  have calls : callRing.callersOf 0 = [1, 1] ∧ callRing.callersOf 1 = [2] ∧
      callRing.callersOf 2 = [3, 0] ∧ callRing.callersOf 3 = [] := by
    simp only [callersOf, edgesTo, arcs_callRing]
    decide
  have near : callRing.transitiveCallers "f" (some 2) = [functionAt "g" 2, functionAt "h" 3] := by
    simp [transitiveCallers, named, callersAround, calls, List.eraseDups_cons, node?, nodes_callRing]
  have every : callRing.transitiveCallers "f" none =
      [functionAt "g" 2, functionAt "h" 3, functionAt "k" 4] := by
    simp [transitiveCallers, named, callersAround, calls, List.eraseDups_cons, node?, nodes_callRing,
      arcs_callRing]
  obtain ⟨callers, nodes, once, members, order, queue, widened⟩ :=
    reached_callRing.transitiveCallers_by_distance "f" (some 2)
  refine ⟨reached_callRing, near, every, callers, by rw [nodes, near]; rfl, once,
    fun handle => ?_, order, queue, widened none ?_⟩
  · simpa using members handle
  · rintro limit ⟨⟩

end Graph

end CodeGraph

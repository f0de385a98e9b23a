import CodeGraph.Proofs.Facts.Recorded

/-!
# Numbers in the tables

Besides nodes, the walk stores numbers: of the scope in which a name is to be looked up and of the
scope of a call, of the region in which a variable is declared, and of the fact about a function. Each
is that of an entry from then on, for it was one when it was stored and the tables only grow
(`Facts.Makes.numbered`).
-/

namespace CodeGraph

/-- The names that are still to be looked up in a region are to be looked up in scopes of a table. -/
def Region.NamesIn (region : Region) (scopes : Scopes) : Prop :=
  ∀ access ∈ region.allAccesses, ∀ text scope, access.binding = .name text scope →
    scope < scopes.list.size

namespace Region.NamesIn

variable {region : Region} {before after : Scopes}

theorem later (names : region.NamesIn before) (grown : before.list.size ≤ after.list.size) :
    region.NamesIn after :=
  fun access there text scope named =>
    Nat.lt_of_lt_of_le (names access there text scope named) grown

theorem record (names : region.NamesIn before) (statement : Option Nat) {access : Access}
    (new : ∀ text scope, access.binding = .name text scope → scope < before.list.size) :
    (region.record statement access).NamesIn before := by
  intro other there
  rcases mem_allAccesses_record there with old | rfl
  · exact names other old
  · exact new

end Region.NamesIn

namespace Facts

/-- The numbers that the tables hold are those of entries. -/
structure Numbered (facts : Facts) : Prop where
  names : ∀ (number : Nat) (region : Region), facts.regions[number]? = some region →
    region.NamesIn facts.scopes
  calls : ∀ (number : Nat) (call : CallFact), facts.calls[number]? = some call →
    call.scope < facts.scopes.list.size
  regionOf : ∀ (node number : Nat), facts.regionOf[node]? = some number →
    number < facts.regions.size

variable {file : SourceFile} {base facts after : Facts} {outer : Context} {adds : Bool}

namespace Numbered

/-- What keeps the accesses of every region keeps the numbers, where nothing is lost. -/
theorem keep (numbered : Numbered facts) (extend : facts.Extends after)
    (regions : ∀ (number : Nat) (region : Region), after.regions[number]? = some region →
      region.NamesIn facts.scopes)
    (calls : after.calls = facts.calls) (regionOf : after.regionOf = facts.regionOf) :
    Numbered after where
  names := fun number region found => (regions number region found).later extend.scopes
  calls := by
    rw [calls]
    exact fun number call found => Nat.lt_of_lt_of_le (numbered.calls number call found) extend.scopes
  regionOf := by
    rw [regionOf]
    exact fun node number found =>
      Nat.lt_of_lt_of_le (numbered.regionOf node number found) extend.regions

/-- What leaves the regions as they are keeps the numbers, where nothing is lost. -/
theorem same (numbered : Numbered facts) (extend : facts.Extends after)
    (regions : after.regions = facts.regions) (calls : after.calls = facts.calls)
    (regionOf : after.regionOf = facts.regionOf) : Numbered after :=
  numbered.keep extend (by rw [regions]; exact numbered.names) calls regionOf

end Numbered

theorem numbered_start : Numbered {} where
  names := by
    intro number region found
    cases number with
    | zero =>
      obtain rfl := Option.some.inj found
      exact fun access there => nomatch there
    | succ number => simp at found
  calls := by
    intro number call found
    simp at found
  regionOf := by
    intro node number found
    simp at found

/-- The walk stores numbers of entries only. -/
theorem Makes.numbered (made : Makes file base outer adds facts) (numbered : Numbered base) :
    Numbered facts := by
  -- A number is stored by `record`, `declareIn` and `enterCall`, of the context where the walk is.
  induction made with
  | start => exact numbered
  | @place facts node parent _ _ _ _ ih =>
    exact ih.same (extends_place facts node parent) rfl rfl rfl
  | @record facts context access _ _ _ stands ih =>
    exact ih.keep (extends_record facts context access) (each_modified
      (getElem?_record facts context access) ih.names fun _ _ names =>
        names.record context.statement stands.scope) rfl rfl
  | @pushScope facts parent _ _ ih =>
    exact ih.same (extends_pushScope facts parent false) rfl rfl rfl
  | @pushStatement facts context site kind _ _ _ _ _ ih =>
    have extend := extends_pushStatement facts context site kind
    rw [pushStatement_eq] at extend ⊢
    exact ih.keep extend (each_modified (fun _ => Array.getElem?_modify) ih.names
      fun _ _ names access there => names access (Region.mem_allAccesses_push there)) rfl rfl
  | @pushArm facts context statement role _ _ _ _ _ ih =>
    have extend := extends_pushArm facts context statement role
    rw [pushArm_eq] at extend ⊢
    exact ih.keep extend (each_modified (fun _ => Array.getElem?_modify) ih.names
      fun _ _ names => names) rfl rfl
  | @recordReturn facts function site _ _ ih =>
    have extend := extends_recordReturn facts function site
    cases function with
    | none => exact ih
    | some number => exact ih.same extend rfl rfl rfl
  | @declareVariable facts scope name node _ _ _ ih =>
    exact ih.same (extends_declareVariable facts scope name node) rfl rfl rfl
  | @declareIn facts context node _ _ known _ ih =>
    refine ⟨ih.names, ih.calls, fun other number found => ?_⟩
    rw [Std.HashMap.getElem?_insert] at found
    split at found
    · exact Option.some.inj found ▸ known.region_lt
    · exact ih.regionOf other number found
  | @addParam facts context node _ _ _ _ ih =>
    exact ih.keep (extends_addParam facts context.region node) (each_modified
      (fun _ => Array.getElem?_modify) ih.names fun _ _ names => names) rfl rfl
  | @noteParam facts number position node _ _ _ ih =>
    exact ih.same (extends_modifyFunction facts number fun _ => rfl) rfl rfl rfl
  | @enterFunction facts cursor context hint isMethod _ _ _ ih =>
    have extend := extends_enterFunction facts file cursor context hint isMethod
    rw [enterFunction_eq] at extend ⊢
    exact ih.keep extend (each_pushed ih.names fun _ there => nomatch there) rfl rfl
  | @pushClass facts name _ ih => exact ih.same (extends_pushClass facts { name }) rfl rfl rfl
  | @noteMethod facts number node _ _ _ ih =>
    exact ih.same (extends_modifyClass facts number _) rfl rfl rfl
  | enterCall cursor context _ known _ _ _ ih =>
    exact ⟨ih.names, each_pushed ih.calls known.scope, ih.regionOf⟩

/-- At every moment of the walk the numbers in the tables are those of entries. -/
theorem Visits.numbered {tasks : List Task} (visits : Visits file facts tasks) : Numbered facts := by
  induction visits with
  | start => exact numbered_start
  | @step facts task rest before ih =>
    obtain ⟨sound, ready⟩ := before.sound
    obtain ⟨known, has⟩ := ready task List.mem_cons_self
    exact (proceeds_step sound known has).made.numbered ih

/-- The fact about a function is where it is looked up. -/
theorem Recorded.functionIndex_lt (recorded : Recorded file facts) {node number : Nat}
    (found : facts.functionIndex[node]? = some number) : number < facts.functions.size := by
  obtain ⟨signature, listed, -⟩ := recorded.index node number found
  simpa [signatures] using (List.getElem?_eq_some_iff.1 listed).1

end Facts

end CodeGraph

import CodeGraph.Json.Typed
import CodeGraph.Proofs.Number.Spelling

/-!
# Values read back from documents

What is read from the document of a value, of a list or a table of values, and of a record. A record is read
from the object of all its fields, in their order, by reading one field after the other
(`Doc.getRecord_ofMembers`).
-/

namespace CodeGraph

namespace Doc

variable {α β : Type}

theorem getText_ofText (value : String) : getText (ofText value) = .ok value := rfl

theorem getNat_ofNat {max n : Nat} (low : n ≤ max) (fits : max ≤ Binary64.maxCount) :
    getNat max (ofNat n) = .ok n := by
  simp only [ofNat, getNat, Numeral.value_ofNat (Nat.le_trans low fits), if_pos low]

theorem getName_ofText {ofName? : String → Option α} {name : String} {value : α}
    (found : ofName? name = some value) : getName ofName? (ofText name) = .ok value := by
  simp only [ofText, getName, getName.ofText, bind, Except.bind, found]

theorem getOption_ofText (value : Option String) :
    getOption getText (value.elim null ofText) = .ok value := by
  cases value <;> rfl

/-! ## Lists and tables -/

theorem getList_ofList (value : Doc → Except Fault α) (toDoc : β → Doc) (back : β → α) {items : List β}
    (reads : ∀ item ∈ items, value (toDoc item) = .ok (back item)) :
    getList value (ofList (items.map toDoc)) = .ok (items.map back) := by
  have each : (items.map toDoc).mapM value = .ok (items.map back) := by
    induction items with
    | nil => rfl
    | cons item items ih =>
      rw [List.map_cons, List.mapM_cons, reads item List.mem_cons_self,
        ih fun other there => reads other (List.mem_cons_of_mem _ there)]
      rfl
  rw [ofList, getList, each]
  rfl

theorem getTable_ofMembers (value : Doc → Except Fault α) (toDoc : β → Doc) (back : β → α)
    {entries : List (String × β)}
    (reads : ∀ entry ∈ entries, value (toDoc entry.2) = .ok (back entry.2)) :
    getTable value (ofMembers (entries.map fun entry => (entry.1, toDoc entry.2))) =
      .ok (entries.map fun entry => (entry.1, back entry.2)) := by
  have each : getMembers value (keyed (entries.map fun entry => (entry.1, toDoc entry.2))) =
      .ok (entries.map fun entry => (entry.1, back entry.2)) := by
    induction entries with
    | nil => rfl
    | cons entry entries ih =>
      have rest := ih fun other there => reads other (List.mem_cons_of_mem _ there)
      simp only [keyed, List.map_cons] at rest ⊢
      simp only [getMembers, bind, Except.bind, reads entry List.mem_cons_self, rest, pure, Except.pure]
  rw [ofMembers, ← keyed, getTable, each]
  rfl

/-! ## Records -/

/-- Read each field of a record from a document of its own. -/
def readEach (fields : List (Field α × Doc)) (value : α) : Except Fault α :=
  fields.foldlM (fun value field => field.1.read field.2 value) value

/-- The names of the fields that are read from documents of their own. -/
def names (pairs : List (Field α × Doc)) : List String := pairs.map fun pair => pair.1.name

theorem mem_names {pairs : List (Field α × Doc)} {pair : Field α × Doc} (inside : pair ∈ pairs) :
    pair.1.name ∈ names pairs :=
  List.mem_map_of_mem (f := fun pair : Field α × Doc => pair.1.name) inside

theorem find?_name {pairs : List (Field α × Doc)} (distinct : (names pairs).Nodup)
    {pair : Field α × Doc} (inside : pair ∈ pairs) :
    ((pairs.map Prod.fst).find? fun field => field.name == pair.1.name) = some pair.1 := by
  induction pairs with
  | nil => cases inside
  | cons first pairs ih =>
    obtain ⟨other, distinct⟩ : first.1.name ∉ names pairs ∧ (names pairs).Nodup :=
      List.nodup_cons.1 distinct
    rw [List.map_cons]
    rcases List.mem_cons.1 inside with rfl | inside
    · exact List.find?_cons_of_pos (beq_self_eq_true _)
    · have apart : first.1.name ≠ pair.1.name := fun same => other (same ▸ mem_names inside)
      rw [List.find?_cons_of_neg (by simpa using apart)]
      exact ih distinct inside

/-- Fields that were not read before are read one after the other. -/
theorem readNamed_keyed {fields : List (Field α)} {pairs : List (Field α × Doc)} (seen : List String)
    (value : α) (known : ∀ pair ∈ pairs, fields.find? (fun field => field.name == pair.1.name) = some pair.1)
    (distinct : (names pairs).Nodup) (fresh : ∀ pair ∈ pairs, pair.1.name ∉ seen) :
    readNamed fields (keyed (pairs.map fun pair => (pair.1.name, pair.2))) seen value =
      (fun value => ((names pairs).reverse ++ seen, value)) <$> readEach pairs value := by
  induction pairs generalizing seen value with
  | nil => rfl
  | cons pair pairs ih =>
    obtain ⟨other, distinct⟩ : pair.1.name ∉ names pairs ∧ (names pairs).Nodup :=
      List.nodup_cons.1 distinct
    -- The name of the field joins those that were read, and no later field has it.
    have unread : seen.contains pair.1.name = false := by simpa using fresh pair List.mem_cons_self
    have rest := fun value => ih (pair.1.name :: seen) value
      (fun next there => known next (List.mem_cons_of_mem _ there)) distinct
      (fun next there same => (List.mem_cons.1 same).elim
        (fun equal => other (equal ▸ mem_names there))
        (fresh next (List.mem_cons_of_mem _ there)))
    simp only [keyed, List.map_cons, readNamed, bind, Except.bind, known pair List.mem_cons_self, unread,
      Bool.false_eq_true, if_false, readEach, List.foldlM_cons] at rest ⊢
    cases pair.1.read pair.2 value with
    | error fault => rfl
    | ok value =>
      refine (rest value).trans ?_
      simp [names]

/-- A record is read from the object of all its fields by reading one field after the other. -/
theorem getRecord_ofMembers (fields : List (Field α)) (docs : List Doc) (start : α)
    (distinct : (fields.map Field.name).Nodup) (size : docs.length = fields.length) :
    getRecord fields start (ofMembers ((fields.map Field.name).zip docs)) =
      readEach (fields.zip docs) start := by
  have front : (fields.zip docs).map Prod.fst = fields := List.map_fst_zip (by omega)
  have same : names (fields.zip docs) = fields.map Field.name := by
    rw [names, ← front, List.map_map, front]
    rfl
  have members : (fields.map Field.name).zip docs =
      (fields.zip docs).map fun pair => (pair.1.name, pair.2) := by
    rw [List.zip_map_left]
    rfl
  have known : ∀ pair ∈ fields.zip docs,
      fields.find? (fun field => field.name == pair.1.name) = some pair.1 := by
    intro pair inside
    have found := find?_name (same ▸ distinct) inside
    rwa [front] at found
  have read := readNamed_keyed [] start known (same ▸ distinct) fun _ _ => List.not_mem_nil
  rw [ofMembers, ← keyed, getRecord, members, read]
  cases readEach (fields.zip docs) start with
  | error fault => rfl
  | ok value =>
    have all : (fields.any fun field => field.need == .always &&
        !((names (fields.zip docs)).reverse ++ []).contains field.name) = false := by
      refine List.any_eq_false.2 fun field inside => ?_
      have there : field.name ∈ names (fields.zip docs) := same ▸ List.mem_map_of_mem inside
      simp [there]
    simp only [Functor.map, Except.map, bind, Except.bind, all, Ending.close, pure, Except.pure,
      Bool.false_eq_true, if_false]

end Doc

end CodeGraph

import Mathlib.Data.List.Nodup
import CodeGraph.Files.Listing
import CodeGraph.Proofs.Path

/-!
# Discovery as a filter

Where ignore rules do not count, the files that are found below a directory are all files below it, less
those that the selection does not want (`Selection.Wants`). The walk passes over whole directories, and
the law looks at every file by itself; they agree since what a directory is passed over for is a name on
the way to every file below it (`FileTree.Proper.mem_filesAt`). The files come strictly sorted, for in a tree
with proper names (`FileTree.Proper`) different places have different paths. So a wider selection finds
no fewer files (`FileTree.discover_exact`).
-/

namespace CodeGraph

/-- A name that can stand between the slashes of a path. -/
structure IsName (name : String) : Prop where
  nonempty : name ≠ ""
  here : name ≠ "."
  up : name ≠ ".."
  slash : '/' ∉ name.toList

theorem isName_iff {name : String} :
    IsName name ↔ (name ≠ "" ∧ name ≠ "." ∧ name ≠ "..") ∧ '/' ∉ name.toList :=
  ⟨fun proper => ⟨⟨proper.nonempty, proper.here, proper.up⟩, proper.slash⟩,
    fun ⟨⟨nonempty, here, up⟩, slash⟩ => ⟨nonempty, here, up, slash⟩⟩

instance (name : String) : Decidable (IsName name) := decidable_of_iff _ isName_iff.symm

/-- What a selection wants of a file, given the names on the way to it from the directory that is
searched: no name starts with a dot, no directory on the way is excluded, and some glob that is well
formed accepts the way. -/
structure Selection.Wants (selection : Selection) (names : List String) : Prop where
  visible : ∀ name ∈ names, name.toList.head? ≠ some '.'
  entered : ∀ name ∈ names.dropLast,
    name ∉ selection.excludedDirectories ∧ name ∉ alwaysExcluded
  accepted : ∃ pattern ∈ selection.globs, ∃ glob,
    Glob.ofText? pattern = some glob ∧ glob.accepts (relativeText names) = true

namespace FileTree

/-- The entries of every directory have proper names, each its own. -/
inductive Proper : FileTree → Prop
  | file (content : ByteArray) : Proper (file content)
  | link (target : String) : Proper (link target)
  | directory {entries : List (String × FileTree)} : (entries.map Prod.fst).Nodup →
      (∀ entry ∈ entries, IsName entry.1) → (∀ entry ∈ entries, Proper entry.2) →
      Proper (directory entries)

/-! ## Places -/

theorem lookup_eq_some_iff_mem {entries : List (String × FileTree)} {name : String}
    {entry : FileTree} (apart : (entries.map Prod.fst).Nodup) :
    entries.lookup name = some entry ↔ (name, entry) ∈ entries := by
  rw [List.lookup_eq_some_iff]
  constructor
  · rintro ⟨front, back, rfl, -⟩
    simp
  · intro inside
    obtain ⟨front, back, rfl⟩ := List.append_of_mem inside
    refine ⟨front, back, rfl, fun other there => bne_iff_ne.2 fun same => ?_⟩
    rw [List.map_append, List.map_cons, List.nodup_append'] at apart
    exact apart.2.2 (List.mem_map.2 ⟨other, there, same.symm⟩) List.mem_cons_self

/-- The names on the way to a place are proper. -/
theorem Proper.isName {tree found : FileTree} {place : List String} (proper : tree.Proper)
    (there : tree.get? place = some found) : ∀ name ∈ place, IsName name := by
  induction place generalizing tree with
  | nil => simp
  | cons first rest ih =>
    cases proper with
    | file content => cases there
    | link target => cases there
    | @directory entries apart names inner =>
      obtain ⟨child, held, further⟩ := Option.bind_eq_some_iff.1 there
      have inside := (lookup_eq_some_iff_mem apart).1 held
      exact List.forall_mem_cons.2 ⟨names _ inside, ih (inner _ inside) further⟩

theorem Proper.of_get? {tree found : FileTree} {place : List String} (proper : tree.Proper)
    (there : tree.get? place = some found) : found.Proper := by
  induction place generalizing tree with
  | nil =>
    obtain rfl := Option.some.inj there
    exact proper
  | cons first rest ih =>
    cases proper with
    | file content => cases there
    | link target => cases there
    | @directory entries apart names inner =>
      obtain ⟨child, held, further⟩ := Option.bind_eq_some_iff.1 there
      exact ih (inner _ ((lookup_eq_some_iff_mem apart).1 held)) further

theorem get?_append (tree : FileTree) (front back : List String) :
    tree.get? (front ++ back) = (tree.get? front).bind fun below => below.get? back := by
  induction front generalizing tree with
  | nil => rfl
  | cons first rest ih => simp only [List.cons_append, get?, Option.bind_assoc, ih]

/-- What stands below a directory stands at or below one of its entries. -/
theorem get?_cons_eq_some_iff {entries : List (String × FileTree)} {name : String}
    {names : List String} {found : FileTree} (apart : (entries.map Prod.fst).Nodup) :
    (directory entries).get? (name :: names) = some found ↔
      ∃ entry, (name, entry) ∈ entries ∧ entry.get? names = some found := by
  simp only [get?, entries?, Option.bind_some, Option.bind_eq_some_iff, lookup_eq_some_iff_mem apart]

/-! ## The walk -/

section
variable {tree entry : FileTree} {entries : List (String × FileTree)}
  {excluded place found : List String} {name : String}

@[simp] theorem isPassedOver_nil (isDirectory : Bool) :
    isPassedOver [] place name isDirectory = isHidden name := rfl

theorem rulesAt_false (tree : FileTree) (place : List String) : tree.rulesAt false place = [] := by
  have enter (directory : List String) : RulesInForce.enter [] tree directory = [] := rfl
  rw [rulesAt]
  induction (List.range (place.length + 1)).map place.take with
  | nil => rfl
  | cons first rest ih => rwa [List.foldl_cons, RulesInForce.start, if_neg Bool.false_ne_true, enter]

theorem filesAmong_eq (rules : RulesInForce) (entries : List (String × FileTree)) :
    filesAmong tree excluded rules place entries =
      entries.flatMap fun entry => filesAt tree excluded rules place entry.1 entry.2 := by
  induction entries with
  | nil => rfl
  | cons first rest ih => rw [filesAmong, ih, List.flatMap_cons]

/-- The walk may go this way: no name is hidden, and it enters no excluded directory. -/
def MayGo (excluded names : List String) : Prop :=
  (∀ name ∈ names, isHidden name = false) ∧ ∀ name ∈ names.dropLast, name ∉ excluded

theorem mayGo_singleton : MayGo excluded [name] ↔ isHidden name = false := by simp [MayGo]

theorem mayGo_cons {names : List String} (below : names ≠ []) :
    MayGo excluded (name :: names) ↔
      (isHidden name = false ∧ name ∉ excluded) ∧ MayGo excluded names := by
  rw [MayGo, MayGo, List.dropLast_cons_of_ne_nil below, List.forall_mem_cons, List.forall_mem_cons]
  exact and_and_and_comm

/-- What the walk finds below a directory, given what it finds at and below each entry. -/
theorem mem_filesAmong_of (apart : (entries.map Prod.fst).Nodup)
    (each : ∀ entry ∈ entries, found ∈ filesAt tree excluded [] place entry.1 entry.2 ↔
      ∃ names content, found = place ++ entry.1 :: names ∧
        entry.2.get? names = some (file content) ∧ MayGo excluded (entry.1 :: names)) :
    found ∈ filesAmong tree excluded [] place entries ↔ ∃ names content,
      found = place ++ names ∧ (directory entries).get? names = some (file content) ∧
        MayGo excluded names := by
  rw [filesAmong_eq, List.mem_flatMap]
  constructor
  · rintro ⟨⟨first, child⟩, held, inside⟩
    obtain ⟨rest, content, rfl, there, free⟩ := (each _ held).1 inside
    exact ⟨_, content, rfl, (get?_cons_eq_some_iff apart).2 ⟨child, held, there⟩, free⟩
  · rintro ⟨names, content, rfl, there, free⟩
    cases names with
    | nil => cases there
    | cons first rest =>
      obtain ⟨child, held, there⟩ := (get?_cons_eq_some_iff apart).1 there
      exact ⟨_, held, (each _ held).2 ⟨rest, content, rfl, there, free⟩⟩

/-- The walk finds the files that it may go to, at any depth. -/
theorem Proper.mem_filesAt (proper : entry.Proper) :
    found ∈ filesAt tree excluded [] place name entry ↔ ∃ names content,
      found = place ++ name :: names ∧ entry.get? names = some (.file content) ∧
        MayGo excluded (name :: names) := by
  induction proper generalizing place name with
  | file content =>
    rw [filesAt, isPassedOver_nil]
    constructor
    · intro inside
      split at inside
      · cases inside
      · next free =>
        rw [List.mem_singleton] at inside
        exact ⟨[], content, inside, rfl, mayGo_singleton.2 (Bool.not_eq_true _ ▸ free)⟩
    · rintro ⟨names, other, rfl, there, free⟩
      cases names with
      | nil => simp [mayGo_singleton.1 free]
      | cons first rest => cases there
  | link target =>
    simp only [filesAt, List.not_mem_nil, false_iff]
    rintro ⟨names, content, -, there, -⟩
    cases names <;> cases there
  | @directory entries apart names inner ih =>
    have below : found ∈ filesAmong tree excluded [] (place ++ [name]) entries ↔ _ :=
      mem_filesAmong_of apart fun entry held => ih entry held
    rw [filesAt, isPassedOver_nil]
    constructor
    · intro inside
      split at inside
      · cases inside
      · next free =>
        obtain ⟨rest, content, rfl, there, further⟩ := below.1 inside
        refine ⟨rest, content, by simp, there, ?_⟩
        cases rest with
        | nil => cases there
        | cons first rest => exact (mayGo_cons (by simp)).2 ⟨by simpa using free, further⟩
    · rintro ⟨names, content, rfl, there, free⟩
      cases names with
      | nil => cases there
      | cons first rest =>
        obtain ⟨free, further⟩ := (mayGo_cons (by simp)).1 free
        rw [if_neg (by simpa using free)]
        exact below.2 ⟨_, content, by simp, there, further⟩

/-- The walk finds no file twice below a directory if it finds none twice below an entry. -/
theorem nodup_filesAmong_of (apart : (entries.map Prod.fst).Nodup)
    (proper : ∀ entry ∈ entries, entry.2.Proper)
    (each : ∀ entry ∈ entries, (filesAt tree excluded [] place entry.1 entry.2).Nodup) :
    (filesAmong tree excluded [] place entries).Nodup := by
  rw [filesAmong_eq, List.nodup_flatMap]
  refine ⟨each, (List.pairwise_map.1 apart).imp_of_mem ?_⟩
  intro a b here there differ found first second
  obtain ⟨rest, -, rfl, -⟩ := (proper a here).mem_filesAt.1 first
  obtain ⟨rest', -, same, -⟩ := (proper b there).mem_filesAt.1 second
  exact differ (List.cons.inj (List.append_cancel_left same)).1

theorem Proper.nodup_filesAt (proper : entry.Proper) :
    (filesAt tree excluded [] place name entry).Nodup := by
  induction proper generalizing place name with
  | file content =>
    rw [filesAt]
    split <;> simp
  | link target => simp [filesAt]
  | directory apart names inner ih =>
    rw [filesAt]
    split
    · exact List.nodup_nil
    · exact nodup_filesAmong_of apart inner fun entry held => ih entry held

end

/-! ## The paths of places -/

theorem component?_of_isName {name : String} (proper : IsName name) (leading : Bool) :
    Path.component? leading name = some (.named name) := by
  simp [Path.component?, proper.nonempty, proper.here, proper.up]

/-- The pieces of the path of a place below the root are the names of the place, behind what is in
front of the first slash. -/
theorem pieces_pathOf {place : List String} (proper : ∀ name ∈ place, IsName name)
    (below : place ≠ []) : Path.pieces (pathOf place).text = "" :: place := by
  have text : (pathOf place).text.toList = ['/'].intercalate (("" :: place).map String.toList) := by
    cases place with
    | nil => exact absurd rfl below
    | cons first rest => simp [pathOf, String.toList_intercalate, List.intercalate_cons_cons]
  rw [Path.pieces, text, List.splitOn_intercalate]
  · simp
  · simpa using fun name inside => (proper name inside).slash
  · simp

/-- The components of the path of a place are the names of the place, behind the root. -/
theorem components_pathOf {place : List String} (proper : ∀ name ∈ place, IsName name) :
    (pathOf place).components = .root :: place.map .named := by
  by_cases below : place = []
  · subst below
    rfl
  have absolute : (pathOf place).isAbsolute = true := by simp [Path.isAbsolute, pathOf]
  have named : place.filterMap (Path.component? false) = place.map .named := by
    rw [← List.filterMap_eq_map]
    exact List.filterMap_congr fun name inside => component?_of_isName (proper name inside) false
  rw [Path.components, pieces_pathOf proper below]
  simp [absolute, named]

/-- Places that have the same path are the same place. -/
theorem components_pathOf_injOn {front back : List String} (proper : ∀ name ∈ front, IsName name)
    (proper' : ∀ name ∈ back, IsName name)
    (same : (pathOf front).components = (pathOf back).components) : front = back := by
  rw [components_pathOf proper, components_pathOf proper'] at same
  exact List.map_injective_iff.2 (fun _ _ => Path.Component.named.inj) (List.cons.inj same).2

end FileTree

/-! ## The selection -/

namespace Selection

variable {selection wider : Selection} {names : List String}

theorem wants_iff : selection.Wants names ↔
    FileTree.MayGo (selection.excludedDirectories ++ alwaysExcluded) names ∧
      ((selection.globs.filterMap Glob.ofText?).any fun glob =>
        glob.accepts (relativeText names)) = true := by
  simp only [FileTree.MayGo, FileTree.isHidden, List.mem_append, not_or, List.any_eq_true,
    List.mem_filterMap]
  constructor
  · rintro ⟨visible, entered, pattern, listed, glob, read, accepted⟩
    exact ⟨⟨fun name inside => by simpa using visible name inside, entered⟩,
      glob, ⟨pattern, listed, read⟩, accepted⟩
  · rintro ⟨⟨visible, entered⟩, glob, ⟨pattern, listed, read⟩, accepted⟩
    exact ⟨fun name inside => by simpa using visible name inside, entered,
      pattern, listed, glob, read, accepted⟩

/-- With more globs and fewer excluded directories a selection wants no less. -/
theorem Wants.mono (wanted : selection.Wants names) (globs : selection.globs ⊆ wider.globs)
    (excluded : wider.excludedDirectories ⊆ selection.excludedDirectories) : wider.Wants names where
  visible := wanted.visible
  entered name inside :=
    ⟨fun listed => (wanted.entered name inside).1 (excluded listed), (wanted.entered name inside).2⟩
  accepted :=
    let ⟨pattern, listed, rest⟩ := wanted.accepted
    ⟨pattern, globs listed, rest⟩

end Selection

namespace FileTree

variable {tree : FileTree} {entries : List (String × FileTree)} {place : List String} {root : Path}
  {selection : Selection}

/-- The places that the walk finds below a directory are those of the files it may go to. -/
theorem Proper.mem_filesBelow {found : List String} (proper : tree.Proper)
    (here : tree.get? place = some (.directory entries)) (unruled : selection.respectRules = false) :
    found ∈ tree.filesBelow selection place ↔ ∃ names content, found = place ++ names ∧
      tree.get? (place ++ names) = some (.file content) ∧
        MayGo (selection.excludedDirectories ++ alwaysExcluded) names := by
  cases proper.of_get? here with
  | directory apart names inner =>
    simp only [filesBelow, here, unruled, rulesAt_false, get?_append, Option.bind_some]
    exact mem_filesAmong_of apart fun entry held => (inner entry held).mem_filesAt

theorem Proper.nodup_filesBelow (proper : tree.Proper)
    (here : tree.get? place = some (.directory entries)) (unruled : selection.respectRules = false) :
    (tree.filesBelow selection place).Nodup := by
  cases proper.of_get? here with
  | directory apart names inner =>
    simp only [filesBelow, here, unruled, rulesAt_false]
    exact nodup_filesAmong_of apart inner fun entry held => (inner entry held).nodup_filesAt

/-- What is found below a directory where ignore rules do not count: the files that are wanted. -/
theorem Proper.exists_discover (proper : tree.Proper) (located : tree.locate root = .ok place)
    (here : tree.get? place = some (.directory entries)) (unruled : selection.respectRules = false) :
    ∃ files, tree.discover root selection = .ok files ∧ Path.Sorted files ∧
      ∀ file, file ∈ files ↔ ∃ names content, file = pathOf (place ++ names) ∧
        tree.get? (place ++ names) = some (.file content) ∧ selection.Wants names := by
  let wanted (found : List String) : Bool :=
    (selection.globs.filterMap Glob.ofText?).any fun glob =>
      glob.accepts (relativeText (found.drop place.length))
  have made : tree.discover root selection = .ok
      ((((tree.filesBelow selection place).filter wanted).map pathOf).mergeSort
        fun a b => !b.before a) := by
    rw [discover, located]
    rfl
  refine ⟨_, made, Path.sorted_mergeSort ?_, fun file => ?_⟩
  · -- Different places have different paths, and the walk finds no place twice.
    have named : ∀ found ∈ (tree.filesBelow selection place).filter wanted,
        ∀ name ∈ found, IsName name := by
      intro found inside
      obtain ⟨names, content, rfl, there, -⟩ :=
        (proper.mem_filesBelow here unruled).1 (List.mem_of_mem_filter inside)
      exact proper.isName there
    rw [List.map_map]
    exact ((proper.nodup_filesBelow here unruled).filter _).map_on fun front inFront back inBack =>
      components_pathOf_injOn (named front inFront) (named back inBack)
  · simp only [List.mem_mergeSort, List.mem_map, List.mem_filter, proper.mem_filesBelow here unruled,
      Selection.wants_iff]
    constructor
    · rintro ⟨found, ⟨⟨names, content, rfl, there, free⟩, accepted⟩, rfl⟩
      refine ⟨names, content, rfl, there, free, ?_⟩
      simpa [wanted] using accepted
    · rintro ⟨names, content, rfl, there, free, accepted⟩
      refine ⟨_, ⟨⟨names, content, rfl, there, free⟩, ?_⟩, rfl⟩
      simpa [wanted] using accepted

/-- Discovery is a filter. Below a directory of a tree it finds, where ignore rules do not count, the
regular files that the selection wants, strictly sorted by the components of their paths. A selection
with more globs and fewer excluded directories finds no fewer of them. -/
theorem discover_exact (proper : tree.Proper) (located : tree.locate root = .ok place)
    (here : tree.get? place = some (directory entries)) (unruled : selection.respectRules = false) :
    ∃ files, tree.discover root selection = .ok files ∧ Path.Sorted files ∧
      (∀ file, file ∈ files ↔ ∃ names content, file = pathOf (place ++ names) ∧
        tree.get? (place ++ names) = some (.file content) ∧ selection.Wants names) ∧
      ∀ wider : Selection, wider.respectRules = false → selection.globs ⊆ wider.globs →
        wider.excludedDirectories ⊆ selection.excludedDirectories →
          ∃ more, tree.discover root wider = .ok more ∧ files ⊆ more := by
  obtain ⟨files, made, sorted, each⟩ := proper.exists_discover located here unruled
  refine ⟨files, made, sorted, each, fun wider free globs excluded => ?_⟩
  obtain ⟨more, made', -, each'⟩ := proper.exists_discover located here free
  refine ⟨more, made', fun file inside => ?_⟩
  obtain ⟨names, content, rfl, there, wanted⟩ := (each file).1 inside
  exact (each' _).2 ⟨names, content, rfl, there, wanted.mono globs excluded⟩

/-- A directory with a file named like a directory that is never entered, and with an excluded
directory. -/
def yard : FileTree :=
  directory [("app", directory [
    ("dist", file .empty), ("lib", directory [("a.ts", file .empty)]),
    ("vendor", directory [("b.ts", file .empty)])])]

/-- Look for sources, but not in `vendor`; one of the globs is malformed. -/
def yardSearch : Selection := ⟨["**/*.ts", "[", "d*"], ["vendor"], false⟩

/-- In the yard the file `dist` and the source in `lib` are found, and the one in `vendor` is not. -/
theorem discover_yard : ∃ files, yard.discover ⟨"/app"⟩ yardSearch = .ok files ∧
    Path.Sorted files ∧ pathOf ["app", "dist"] ∈ files ∧ pathOf ["app", "lib", "a.ts"] ∈ files ∧
      pathOf ["app", "vendor", "b.ts"] ∉ files := by
  have proper : yard.Proper := by
    have leaf (name : String) (proper : IsName name) :
        (directory [(name, file .empty)]).Proper :=
      .directory (List.nodup_singleton _) (by simpa using proper) (by simpa using .file _)
    refine .directory (by decide) (by decide) (List.forall_mem_singleton.2 ?_)
    refine .directory (by decide) (by decide) ?_
    simp only [List.forall_mem_cons]
    exact ⟨.file _, leaf _ (by decide), leaf _ (by decide), by simp⟩
  have located : yard.locate ⟨"/app"⟩ = .ok ["app"] := by
    have pieces : Path.pieces "/app" = ["", "app"] := rfl
    simp [locate, pieces, follow, get?, yard]
  have unruled : yardSearch.respectRules = false := rfl
  obtain ⟨files, made, sorted, each, -⟩ := discover_exact proper located rfl unruled
  refine ⟨files, made, sorted, ?_, ?_, ?_⟩
  · exact (each _).2 ⟨["dist"], .empty, rfl, rfl, by decide, by decide, "d*", by decide, _, rfl,
      by decide +kernel⟩
  · exact (each _).2 ⟨["lib", "a.ts"], .empty, rfl, rfl, by decide, by decide, "**/*.ts", by decide,
      _, rfl, by decide +kernel⟩
  · intro inside
    obtain ⟨names, content, same, there, wanted⟩ := (each _).1 inside
    have place : ["app", "vendor", "b.ts"] = ["app"] ++ names :=
      components_pathOf_injOn (by decide) (proper.isName there) (congrArg Path.components same)
    obtain rfl := (List.cons.inj place).2
    exact (wanted.entered "vendor" (by decide)).1 (by decide)

end FileTree

end CodeGraph

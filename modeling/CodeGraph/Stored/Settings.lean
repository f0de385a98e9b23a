import CodeGraph.Json.Typed
import CodeGraph.Settings
import CodeGraph.Toml.Reader

/-!
# Settings as text

Settings are stored as a document of TOML with a table for builds and one for queries. Whatever is
not said keeps its default, and what is not known is not looked at. An array in place of a table
gives its values in order.

The same settings can be read from a document in the notation of JSON.
-/

namespace CodeGraph

/-! ## Reading TOML -/

namespace TomlValue

/-- The texts of an array of texts. -/
def texts? : TomlValue → Option (List String)
  | array items => items.mapM fun item =>
    match item with
    | text value => some value
    | _ => none
  | _ => none

/-- The flag that a value is, if it is one. -/
def flag? : TomlValue → Option Bool
  | flag value => some value
  | _ => none

/-- The natural number that a value is, if it is one. -/
def nat? : TomlValue → Option Nat
  | integer value => if 0 ≤ value then some value.toNat else none
  | _ => none

/-- A field of a record: its name, and how its value is read into the record. -/
structure Field (α : Type) where
  name : String
  set : TomlValue → α → Option α

variable {α : Type}

/-- Read the fields of a record from a table. -/
def ofEntries? (fields : List (Field α)) (start : α) (entries : TomlEntries) : Option α :=
  fields.foldlM
    (fun record field =>
      match entries.lookup field.name with
      | some value => field.set value record
      | none => some record)
    start

/-- Read the fields of a record from the items of an array, in their order. -/
def ofItems? (fields : List (Field α)) (start : α) (items : List TomlValue) : Option α :=
  (fields.zip items).foldlM (fun record (field, value) => field.set value record) start

/-- Read a record; fields that are not there stay as they are at the start. A time is a record
without any known field. -/
def record? (fields : List (Field α)) (start : α) : TomlValue → Option α
  | table _ entries => ofEntries? fields start entries
  | array items => ofItems? fields start items
  | tables latest earlier =>
    ofItems? fields start ((latest :: earlier).reverse.map (table .header))
  | time => some start
  | _ => none

end TomlValue

namespace Settings

/-- The fields of the settings for builds in TOML. -/
def buildEntries : List (TomlValue.Field BuildSettings) := [
  ⟨"include", fun value build => do return { build with globs := ← value.texts? }⟩,
  ⟨"exclude_dirs", fun value build => do
    return { build with excludedDirectories := ← value.texts? }⟩,
  ⟨"parallel", fun value build => do return { build with parallel := ← value.flag? }⟩,
  ⟨"respect_gitignore", fun value build => do return { build with respectRules := ← value.flag? }⟩]

/-- The fields of the settings for queries in TOML. -/
def queryEntries : List (TomlValue.Field QuerySettings) := [
  ⟨"max_paths", fun value query => do return { query with maxPaths := ← value.nat? }⟩]

/-- The fields of settings in TOML. -/
def entries : List (TomlValue.Field Settings) := [
  ⟨"build", fun value settings => do
    return { settings with build := ← value.record? buildEntries {} }⟩,
  ⟨"query", fun value settings => do
    return { settings with query := ← value.record? queryEntries {} }⟩]

/-- The settings that a document of TOML holds, if it is one that fits. -/
def ofText? (text : String) : Option Settings :=
  (Toml.ofText? text).bind (TomlValue.ofEntries? entries {})

/-! ## Writing TOML -/

/-- The written form of an array of texts: one a line, unless there is at most one. -/
def writeTexts (texts : List String) : List Char :=
  match texts with
  | [] => ['[', ']']
  | [text] => '[' :: TomlText.write text ++ [']']
  | texts =>
    let line (text : String) : List Char := "    ".toList ++ TomlText.write text ++ [',', '\n']
    '[' :: '\n' :: texts.flatMap line ++ [']']

/-- The written form of a flag. -/
def writeFlag (value : Bool) : List Char := (if value then "true" else "false").toList

/-- A line of a key and a written value. -/
def writePair (key : String) (value : List Char) : List Char :=
  key.toList ++ " = ".toList ++ value ++ ['\n']

/-- The largest number that TOML can hold. -/
def maxWritten : Nat := TomlNumber.maxInteger

/-- The text of settings; nothing if a number is too large for it. -/
def toText? (settings : Settings) : Option String :=
  if maxWritten < settings.query.maxPaths then none
  else
    some (String.ofList (
      "[build]\n".toList
        ++ writePair "include" (writeTexts settings.build.globs)
        ++ writePair "exclude_dirs" (writeTexts settings.build.excludedDirectories)
        ++ writePair "parallel" (writeFlag settings.build.parallel)
        ++ writePair "respect_gitignore" (writeFlag settings.build.respectRules)
        ++ "\n[query]\n".toList
        ++ writePair "max_paths" (Nat.toDigits 10 settings.query.maxPaths)))

/-! ## Files of settings -/

/-- Why settings cannot be loaded or saved. -/
inductive Failure where
  | file (error : FileError)
  /-- The text is no document of settings, or the settings have no text. -/
  | format
deriving DecidableEq, Repr

/-- The settings of a file. -/
def load (tree : FileTree) (path : Path) : Except Failure Settings :=
  match tree.readText path with
  | .error error => .error (.file error)
  | .ok text =>
    match ofText? text with
    | some settings => .ok settings
    | none => .error .format

/-- The settings for a directory; the default ones if there is no file for it. -/
def loadFor (tree : FileTree) (directory : Path) : Except Failure Settings :=
  match fileFor? tree directory with
  | some path => load tree path
  | none => .ok {}

/-- The tree in which a file holds settings. -/
def save (settings : Settings) (tree : FileTree) (path : Path) : Except Failure FileTree :=
  match settings.toText? with
  | none => .error .format
  | some text => (tree.write path text).mapError .file

/-! ## Reading JSON -/

open Doc

/-- The fields of the settings for builds. -/
def buildFields : List (Doc.Field BuildSettings) := [
  ⟨"include", fun doc build => do return { build with globs := ← doc.getList getText }, .never⟩,
  ⟨"exclude_dirs", fun doc build => do
    return { build with excludedDirectories := ← doc.getList getText }, .never⟩,
  ⟨"parallel", fun doc build => do return { build with parallel := ← doc.getBool }, .never⟩,
  ⟨"respect_gitignore", fun doc build => do
    return { build with respectRules := ← doc.getBool }, .never⟩]

/-- The largest number of paths that settings can ask for. -/
def maxPathCount : Nat := 0xFFFFFFFFFFFFFFFF

/-- The fields of the settings for queries. -/
def queryFields : List (Doc.Field QuerySettings) := [
  ⟨"max_paths", fun doc query => do
    return { query with maxPaths := ← doc.getNat maxPathCount }, .never⟩]

/-- The fields of settings. -/
def fields : List (Doc.Field Settings) := [
  ⟨"build", fun doc settings => do
    return { settings with build := ← doc.getRecord buildFields {} }, .never⟩,
  ⟨"query", fun doc settings => do
    return { settings with query := ← doc.getRecord queryFields {} }, .never⟩]

/-- The settings of a document. -/
def ofDoc (doc : Doc) : Except Fault Settings := doc.getRecord fields {}

end Settings

end CodeGraph

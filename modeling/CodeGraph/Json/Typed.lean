import CodeGraph.Json.Reader

/-!
# Reading values from documents

A value of some type is read from a document in the order of the text, so of several faults the
first one counts. A record is an object of its fields, in any order and with other members beside
them, or an array of its fields in their order (`Doc.getRecord`).
-/

namespace CodeGraph

namespace Ending

/-- The fault in place of another item or member, or of the closing bracket. -/
def close : Ending → Except Fault Unit
  | closed => .ok ()
  | unclosed fault => .error fault
  | afterComma fault => .error fault
  | unkeyed _ => .error .malformed

/-- The fault in place of the closing bracket where nothing else may stand. -/
def stop : Ending → Except Fault Unit
  | closed => .ok ()
  | unclosed fault => .error fault
  | afterComma _ => .error .malformed
  | unkeyed _ => .error .malformed

end Ending

namespace Doc

/-! ## Documents whose content does not matter -/

mutual

/-- Pass over a document. Numbers may be out of range, and escapes need not denote characters. -/
def skip : Doc → Except Fault Unit
  | array items ending => do
    skipItems items
    ending.close
  | object members ending => do
    skipMembers members
    ending.close
  | broken _ .inNumber => .error .malformed
  | broken _ (.inText fault) => .error fault
  | broken fault _ => .error fault
  | _ => .ok ()

/-- Pass over the items of an array. -/
def skipItems : List Doc → Except Fault Unit
  | [] => .ok ()
  | item :: rest => do
    item.skip
    skipItems rest

/-- Pass over the members of an object. -/
def skipMembers : List (Except Fault String × Doc) → Except Fault Unit
  | [] => .ok ()
  | (_, value) :: rest => do
    value.skip
    skipMembers rest

end

mutual

/-- Look a document over before it is known what it should be. Arrays and objects may stand inside
each other to less than a given depth. -/
def survey (depth : Nat) : Doc → Except Fault Unit
  | array items ending =>
    if depth ≤ 1 then .error .malformed
    else do
      surveyItems (depth - 1) items
      ending.close
  | object members ending =>
    if depth ≤ 1 then .error .malformed
    else do
      surveyMembers (depth - 1) members
      ending.close
  | broken fault _ => .error fault
  | text (.error fault) => .error fault
  | number value => if value.value = .outOfRange then .error .malformed else .ok ()
  | _ => .ok ()

/-- Look the items of an array over. -/
def surveyItems (depth : Nat) : List Doc → Except Fault Unit
  | [] => .ok ()
  | item :: rest => do
    item.survey depth
    surveyItems depth rest

/-- Look the members of an object over. -/
def surveyMembers (depth : Nat) : List (Except Fault String × Doc) → Except Fault Unit
  | [] => .ok ()
  | (.error fault, _) :: _ => .error fault
  | (.ok _, value) :: rest => do
    value.survey depth
    surveyMembers depth rest

end

/-! ## Simple values -/

/-- Read a truth value. -/
def getBool : Doc → Except Fault Bool
  | bool value => .ok value
  | other => .error other.mismatch

/-- Read a natural number that is at most `max`. -/
def getNat (max : Nat) : Doc → Except Fault Nat
  | number numeral =>
    match numeral.value with
    | .natural n => if n ≤ max then .ok n else .error .data
    | _ => .error (number numeral).mismatch
  | other => .error other.mismatch

/-- Read a text. -/
def getText : Doc → Except Fault String
  | text (.ok value) => .ok value
  | other => .error other.mismatch

variable {α : Type}

/-- Read a value that may be absent. -/
def getOption (value : Doc → Except Fault α) : Doc → Except Fault (Option α)
  | null => .ok none
  | other => some <$> value other

/-- Read the values that are the items of an array. -/
def getList (value : Doc → Except Fault α) : Doc → Except Fault (List α)
  | array items ending => do
    let values ← items.mapM value
    ending.close
    return values
  | other => .error other.mismatch

/-- Read the members of an object from the first one on. -/
def getMembers (value : Doc → Except Fault α) :
    List (Except Fault String × Doc) → Except Fault (List (String × α))
  | [] => .ok []
  | (key, doc) :: rest => do
    let key ← key
    let value' ← value doc
    return (key, value') :: (← getMembers value rest)

/-- Read an object as a list of named values. -/
def getTable (value : Doc → Except Fault α) : Doc → Except Fault (List (String × α))
  | object members ending => do
    let values ← getMembers value members
    ending.close
    return values
  | other => .error other.mismatch

/-- Read one of a fixed set of names: a text, or the only key of an object that holds `null`. -/
def getName (ofName? : String → Option α) : Doc → Except Fault α
  | text content => do
    ofText (← content)
  | object ((key, value) :: rest) ending => do
    let found ← ofText (← key)
    match value with
    | null => pure ()
    | other => .error other.mismatch
    if !rest.isEmpty then .error .malformed
    ending.stop
    return found
  | object [] (.unkeyed asText) => .error asText
  | object [] (.unclosed fault) => .error fault
  | broken fault .ahead => .error fault
  | broken fault (.inText _) => .error fault
  | _ => .error .malformed
where
  /-- The value of a name. -/
  ofText (name : String) : Except Fault α :=
    match ofName? name with
    | some value => .ok value
    | none => .error .data

/-! ## Records -/

/-- Whether a field of a record has to be there. -/
inductive Need where
  | always
  /-- Only where the record is an array. -/
  | inArrays
  | never
deriving DecidableEq, Repr

/-- A field of a record: its name, and how its document is read into the record. -/
structure Field (α : Type) where
  name : String
  read : Doc → α → Except Fault α
  need : Need := .always

/-- Read the fields of a record from the items of an array, in their order. -/
def readFields : List (Field α) → List Doc → Ending → α → Except Fault α
  | [], [], ending, value => do
    ending.stop
    return value
  | [], _ :: _, _, _ => .error .malformed
  | field :: fields, [], ending, value => do
    ending.close
    if (field :: fields).any fun field => field.need != .never then .error .data
    return value
  | field :: fields, item :: items, ending, value => do
    readFields fields items ending (← field.read item value)

/-- Read the fields of a record from the members of an object. A field may be there once; `seen` are
the names of those read. -/
def readNamed (fields : List (Field α)) :
    List (Except Fault String × Doc) → List String → α → Except Fault (List String × α)
  | [], seen, value => .ok (seen, value)
  | (key, doc) :: rest, seen, value => do
    let key ← key
    match fields.find? fun field => field.name == key with
    | some field =>
      if seen.contains key then .error .data
      readNamed fields rest (key :: seen) (← field.read doc value)
    | none =>
      doc.skip
      readNamed fields rest seen value

/-- Read a record; fields that are not there stay as they are at the start. -/
def getRecord (fields : List (Field α)) (start : α) : Doc → Except Fault α
  | array items ending => readFields fields items ending start
  | object members ending => do
    let (seen, value) ← readNamed fields members [] start
    ending.close
    if fields.any fun field => field.need == .always && !seen.contains field.name then .error .data
    return value
  | other => .error other.mismatch

end Doc

/-- Read the value that a whole text is. -/
def Doc.decode {α : Type} (value : Doc → Except Fault α) (text : String) : Except Fault α := do
  let (doc, rest) := Doc.parse text
  let found ← value doc
  match rest with
  | some rest => if (Doc.skipSpace rest).isEmpty then return found else .error .malformed
  | none => return found

end CodeGraph

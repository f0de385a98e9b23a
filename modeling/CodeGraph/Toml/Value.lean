/-!
# Values of TOML

A document of TOML is a table. Tables come about in four ways, and that decides which of them a
later line may extend: a header opens a table once, a dotted key makes tables that only dotted keys
beside it may fill, a table that was only named on the way to another may still be opened, and a
table between braces is finished with them. A key is set once.
-/

namespace CodeGraph

/-- How a table came about. -/
inductive TableOrigin where
  /-- By a header of its own. -/
  | header
  /-- On the way to the table of a header. -/
  | implied
  /-- On the way to the last part of a dotted key. -/
  | dotted
  /-- Between braces. -/
  | inline
deriving DecidableEq, Repr, Inhabited

/-- A value. Fractional numbers and times are told from all else, but their content is not kept. -/
inductive TomlValue where
  | text (value : String)
  | integer (value : Int)
  | real
  | flag (value : Bool)
  | time
  | array (items : List TomlValue)
  | table (origin : TableOrigin) (entries : List (String × TomlValue))
  /-- The tables of one repeated header, the latest first. -/
  | tables (latest : List (String × TomlValue)) (earlier : List (List (String × TomlValue)))
deriving Repr, Inhabited

/-- The entries of a table. -/
abbrev TomlEntries := List (String × TomlValue)

namespace TomlEntries

/-- Set the value of a key. -/
def put (key : String) (value : TomlValue) : TomlEntries → TomlEntries
  | [] => [(key, value)]
  | entry :: rest =>
    if entry.1 = key then (key, value) :: rest else entry :: put key value rest

/-- Set the value of a dotted key, which has to be new. -/
def insert? (value : TomlValue) : List String → TomlEntries → Option TomlEntries
  | [], _ => none
  | [key], entries =>
    match entries.lookup key with
    | some _ => none
    | none => some (put key value entries)
  | key :: next :: rest, entries =>
    match entries.lookup key with
    | none => do
      return put key (.table .dotted (← insert? value (next :: rest) [])) entries
    | some (.table .dotted inner) => do
      return put key (.table .dotted (← insert? value (next :: rest) inner)) entries
    | some (.table .implied inner) =>
      if rest.isEmpty then none
      else do return put key (.table .implied (← insert? value (next :: rest) inner)) entries
    | some (.tables latest earlier) =>
      if rest.isEmpty then none
      else do return put key (.tables (← insert? value (next :: rest) latest) earlier) entries
    | some _ => none

/-- Set the values of dotted keys, one after the other. -/
def insertAll? (entries : TomlEntries) (pairs : List (List String × TomlValue)) :
    Option TomlEntries :=
  pairs.foldlM (fun entries pair => insert? pair.2 pair.1 entries) entries

/-- Change the entries of the table that headers lead to by way of the keys given. -/
def change? (change : TomlEntries → Option TomlEntries) :
    List String → TomlEntries → Option TomlEntries
  | [], entries => change entries
  | key :: rest, entries =>
    match entries.lookup key with
    | none => do return put key (.table .implied (← change? change rest [])) entries
    | some (.table .inline _) => none
    | some (.table origin inner) => do
      return put key (.table origin (← change? change rest inner)) entries
    | some (.tables latest earlier) => do
      return put key (.tables (← change? change rest latest) earlier) entries
    | some _ => none

/-- The table of a header, filled, under its last key. It has to be new, or named only on the way to
another one. -/
def openTable? (pairs : List (List String × TomlValue)) (key : String) (entries : TomlEntries) :
    Option TomlEntries :=
  match entries.lookup key with
  | none => do return put key (.table .header (← insertAll? [] pairs)) entries
  | some (.table .implied inner) => do
    return put key (.table .header (← insertAll? inner pairs)) entries
  | some _ => none

/-- One more table of a repeated header, filled, under its last key. -/
def appendTable? (pairs : List (List String × TomlValue)) (key : String) (entries : TomlEntries) :
    Option TomlEntries :=
  match entries.lookup key with
  | none => do return put key (.tables (← insertAll? [] pairs) []) entries
  | some (.tables latest earlier) => do
    return put key (.tables (← insertAll? [] pairs) (latest :: earlier)) entries
  | some _ => none

end TomlEntries

/-- A header and the lines under it. -/
structure TomlSection where
  /-- Whether the header may be repeated. -/
  repeated : Bool
  path : List String
  pairs : List (List String × TomlValue)
deriving Repr

/-- Add the table of a section to those above it. -/
def TomlSection.addTo? (part : TomlSection) (entries : TomlEntries) : Option TomlEntries :=
  match part.path.getLast? with
  | none => none
  | some key =>
    let fill := if part.repeated then TomlEntries.appendTable? else TomlEntries.openTable?
    TomlEntries.change? (fill part.pairs key) part.path.dropLast entries

end CodeGraph

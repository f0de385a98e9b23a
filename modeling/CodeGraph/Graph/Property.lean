import CodeGraph.Number.Binary64

/-!
# Properties

A property value is a flag, a number or a text. The properties of a node or an edge are a list of
pairs in the order of their keys, one pair a key, so two sets of properties are equal exactly when
they answer every look-up alike. The look-up laws are `Properties.get?_insert_self` and
`Properties.get?_insert_of_ne`.
-/

namespace CodeGraph

/-- The value of a property. -/
inductive PropertyValue where
  | flag (value : Bool)
  | number (value : Binary64)
  | text (value : String)
deriving DecidableEq, Repr, Inhabited

namespace PropertyValue

/-- A whole number as a property. -/
def ofNat (n : Nat) : PropertyValue := number (Binary64.ofNat n)

/-- The flag that a value is, if it is one. -/
def flag? : PropertyValue → Option Bool
  | flag value => some value
  | _ => none

/-- The number that a value is, if it is one. -/
def number? : PropertyValue → Option Binary64
  | number value => some value
  | _ => none

/-- The text that a value is, if it is one. -/
def text? : PropertyValue → Option String
  | text value => some value
  | _ => none

end PropertyValue

/-- Properties by key, in the order of the keys. -/
structure Properties where
  entries : List (String × PropertyValue) := []
deriving DecidableEq, Repr, Inhabited

namespace Properties

/-- No properties. -/
def empty : Properties := {}

/-- Insert a pair into a sorted list of pairs; a pair of the same key is replaced. -/
def insertEntry (key : String) (value : PropertyValue) :
    List (String × PropertyValue) → List (String × PropertyValue)
  | [] => [(key, value)]
  | head :: rest =>
    if head.1 = key then (key, value) :: rest
    else if key < head.1 then (key, value) :: head :: rest
    else head :: insertEntry key value rest

/-- Set the property of a key. -/
def insert (properties : Properties) (key : String) (value : PropertyValue) : Properties :=
  ⟨insertEntry key value properties.entries⟩

/-- The properties of a list of pairs; of two pairs of one key the later counts. -/
def ofList (pairs : List (String × PropertyValue)) : Properties :=
  pairs.foldl (fun properties pair => properties.insert pair.1 pair.2) empty

/-- The property of a key. -/
def get? (properties : Properties) (key : String) : Option PropertyValue :=
  properties.entries.lookup key

/-- Whether a key holds the flag `true`; an absent key does not. -/
def isSet (properties : Properties) (key : String) : Bool :=
  properties.get? key == some (.flag true)

/-- The text of a key, if it holds one. -/
def text? (properties : Properties) (key : String) : Option String :=
  (properties.get? key).bind PropertyValue.text?

/-- The number of a key, if it holds one. -/
def number? (properties : Properties) (key : String) : Option Binary64 :=
  (properties.get? key).bind PropertyValue.number?

/-- The flag of a key, if it holds one. -/
def flag? (properties : Properties) (key : String) : Option Bool :=
  (properties.get? key).bind PropertyValue.flag?

theorem lookup_insertEntry (key other : String) (value : PropertyValue)
    (entries : List (String × PropertyValue)) :
    (insertEntry key value entries).lookup other
      = if other = key then some value else entries.lookup other := by
  induction entries with
  | nil => by_cases h : other = key <;> simp [insertEntry, List.lookup_cons, h, beq_false_of_ne]
  | cons head rest ih =>
    obtain ⟨k, v⟩ := head
    by_cases same : k = key
    · subst same
      by_cases h : other = k <;> simp [insertEntry, List.lookup_cons, h, beq_false_of_ne]
    · by_cases less : key < k
      · by_cases h : other = key <;>
          simp [insertEntry, List.lookup_cons, same, less, h, beq_false_of_ne]
      · by_cases here : other = k
        · subst here
          simp [insertEntry, same, less]
        · simp [insertEntry, List.lookup_cons, same, less, ih, beq_false_of_ne here]

@[simp]
theorem get?_insert_self (properties : Properties) (key : String) (value : PropertyValue) :
    (properties.insert key value).get? key = some value := by
  simp [get?, insert, lookup_insertEntry]

theorem get?_insert_of_ne (properties : Properties) {key other : String} (value : PropertyValue)
    (different : other ≠ key) :
    (properties.insert key value).get? other = properties.get? other := by
  simp [get?, insert, lookup_insertEntry, different]

end Properties

end CodeGraph

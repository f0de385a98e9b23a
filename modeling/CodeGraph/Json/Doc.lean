import CodeGraph.Json.Numeral

/-!
# Documents

A document in the notation of JSON, as far as it can be read. Reading never fails: where the text
stops being a document, the tree holds the fault in the place where the rest would have been. So
what a reader of a certain type of value complains about first, the text or the value, is decided by
walking the tree in the order of the text.
-/

namespace CodeGraph

/-- What is wrong with a text. -/
inductive Fault where
  /-- The text is a document, but not one of the type that was asked for. -/
  | data
  /-- The text is no document. -/
  | malformed
  /-- The text ends too early. -/
  | ended
deriving DecidableEq, Repr, Inhabited

/-- How a list of items or members goes on behind the last one that was read. -/
inductive Ending where
  | closed
  /-- With a fault in place of a comma or the closing bracket. -/
  | unclosed (fault : Fault)
  /-- With a comma and then a fault in place of another item. -/
  | afterComma (fault : Fault)
  /-- With something that is no text in place of the first key; `asText` is what is wrong with it
  where a text is asked for. -/
  | unkeyed (asText : Fault)
deriving DecidableEq, Repr, Inhabited

/-- Where in a part of a document reading stops. -/
inductive Break where
  /-- Before the first character. -/
  | ahead
  /-- In one of the words `null`, `true` and `false`. -/
  | inWord
  | inNumber
  /-- In a text, where `skipped` is the fault if the text only has to be passed over. -/
  | inText (skipped : Fault)
deriving DecidableEq, Repr, Inhabited

/-- A document, as far as it can be read. A text is a fault where its escapes denote no characters
but are well formed otherwise. -/
inductive Doc where
  | null
  | bool (value : Bool)
  | number (value : Numeral)
  | text (value : Except Fault String)
  | array (items : List Doc) (ending : Ending)
  | object (members : List (Except Fault String × Doc)) (ending : Ending)
  /-- No document. -/
  | broken (fault : Fault) (place : Break)
deriving Inhabited

namespace Doc

/-- What is wrong with a document where a value of another type is asked for. -/
def mismatch : Doc → Fault
  | text (.error fault) => fault
  | number value => if value.value = .outOfRange then .malformed else .data
  | broken fault _ => fault
  | _ => .data

/-- The document of a text. -/
def ofText (value : String) : Doc := text (.ok value)

/-- The document of a natural number. -/
def ofNat (n : Nat) : Doc := number (.ofNat n)

/-- The document of a list of documents. -/
def ofList (items : List Doc) : Doc := array items .closed

/-- The document of named documents. -/
def ofMembers (members : List (String × Doc)) : Doc :=
  object (members.map fun member => (.ok member.1, member.2)) .closed

end Doc

end CodeGraph

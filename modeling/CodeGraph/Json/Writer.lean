import CodeGraph.Json.Doc

/-!
# Writing documents

The compact form of a document: no white space, and in a text only the quote, the backslash and the
control characters escaped. A part that holds a fault is written as `null`; no document that is read
without a fault, or made from values, has one.
-/

namespace CodeGraph

namespace Doc

/-- A hexadecimal digit. -/
def hexDigit (n : Nat) : Char := if n < 10 then Char.ofNat (48 + n) else Char.ofNat (87 + n)

/-- The form of a character inside quotes. -/
def escape (c : Char) : List Char :=
  if c = '"' then ['\\', '"']
  else if c = '\\' then ['\\', '\\']
  else if c = '\x08' then ['\\', 'b']
  else if c = '\x0c' then ['\\', 'f']
  else if c = '\n' then ['\\', 'n']
  else if c = '\r' then ['\\', 'r']
  else if c = '\t' then ['\\', 't']
  else if c.toNat < 0x20 then
    ['\\', 'u', '0', '0', hexDigit (c.toNat / 16), hexDigit (c.toNat % 16)]
  else [c]

/-- A text in quotes. -/
def quote (text : String) : List Char := '"' :: text.toList.flatMap escape ++ ['"']

/-- The word for the document without content. -/
def nullWord : List Char := ['n', 'u', 'l', 'l']

/-- The word for a truth value. -/
def boolWord (value : Bool) : List Char :=
  if value then ['t', 'r', 'u', 'e'] else ['f', 'a', 'l', 's', 'e']

/-- The characters of a key. -/
def keyChars : Except Fault String → List Char
  | .ok key => quote key
  | .error _ => quote ""

mutual

/-- The characters of a document. -/
def chars : Doc → List Char
  | null => nullWord
  | bool value => boolWord value
  | number value => value.text
  | text (.ok value) => quote value
  | text (.error _) => nullWord
  | array items _ => '[' :: itemChars items
  | object members _ => '\x7b' :: memberChars members
  | broken _ _ => nullWord

/-- The characters of the items of an array, with the closing bracket. -/
def itemChars : List Doc → List Char
  | [] => [']']
  | [item] => chars item ++ [']']
  | item :: next :: rest => chars item ++ ',' :: itemChars (next :: rest)

/-- The characters of the members of an object, with the closing bracket. -/
def memberChars : List (Except Fault String × Doc) → List Char
  | [] => ['\x7d']
  | [(key, value)] => keyChars key ++ ':' :: chars value ++ ['\x7d']
  | (key, value) :: next :: rest =>
    keyChars key ++ ':' :: chars value ++ ',' :: memberChars (next :: rest)

end

/-- The text of a document. -/
def toText (doc : Doc) : String := String.ofList doc.chars

end Doc

end CodeGraph

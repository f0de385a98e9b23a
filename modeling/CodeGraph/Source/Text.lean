/-!
# Source text

The text of a file as its bytes. Places in it are byte offsets; a place is reported as a line and a
column, both from one, where the column counts the bytes since the last line feed.
-/

namespace CodeGraph

/-- The text of a file, in UTF-8. -/
structure SourceText where
  bytes : ByteArray

namespace SourceText

/-- The source text of a string. -/
def ofString (text : String) : SourceText := ⟨text.toUTF8⟩

/-- The text between two offsets; empty where they cut a character. -/
def slice (source : SourceText) (start stop : Nat) : String :=
  (String.fromUTF8? (source.bytes.extract start stop)).getD ""

/-- The bytes before an offset. -/
def upTo (source : SourceText) (offset : Nat) : List UInt8 :=
  (source.bytes.extract 0 offset).toList

/-- The line of an offset, from one. -/
def line (source : SourceText) (offset : Nat) : Nat :=
  (source.upTo offset).count 10 + 1

/-- The column of an offset, from one. -/
def column (source : SourceText) (offset : Nat) : Nat :=
  ((source.upTo offset).reverse.takeWhile (· ≠ 10)).length + 1

end SourceText

/-- The characters that count as white space in a text, of any script. -/
def isBlank (c : Char) : Bool :=
  let n := c.toNat
  (9 ≤ n && n ≤ 13) || n == 0x20 || n == 0x85 || n == 0xA0 || n == 0x1680
    || (0x2000 ≤ n && n ≤ 0x200A) || n == 0x2028 || n == 0x2029 || n == 0x202F || n == 0x205F
    || n == 0x3000

/-- A text without its white space, for names that run over several lines. -/
def compact (text : String) : String :=
  String.ofList (text.toList.filter fun c => !isBlank c)

/-- A text without the quotes at its two ends. -/
def unquoted (text : String) : String :=
  let isQuote (c : Char) : Bool := c == '"' || c == '\''
  String.ofList ((text.toList.dropWhile isQuote).reverse.dropWhile isQuote).reverse

end CodeGraph

/-!
# Syntax trees

A syntax tree is given by its parser: every node has a kind, perhaps the name of the field that it
fills in its parent, a stretch of the source text, and marks. A `Cursor` is a node together with the
kinds of the nodes above it; the tree of a node below another one is smaller (`Cursor.Below.size_lt`),
and that is why walks over a tree end.
-/

namespace CodeGraph

/-- What a parser tells about one node. -/
structure Shape where
  kind : String
  field : Option String := none
  /-- The offset of the first byte. -/
  start : Nat
  /-- The offset behind the last byte. -/
  stop : Nat
  /-- Whether the node has a name in the grammar, unlike a plain token. -/
  named : Bool := false
  /-- Whether the node stands for text that fits nowhere. -/
  isError : Bool := false
  /-- Whether the parser supplied the node where the text lacks one. -/
  isMissing : Bool := false
  /-- Whether the parser marked the node as holding an error. -/
  hasError : Bool := false
deriving DecidableEq, Repr, Inhabited

/-- A syntax tree. -/
inductive Tree where
  | node (shape : Shape) (children : List Tree)
deriving Repr, Inhabited

namespace Tree

/-- What the parser tells about the root of a tree. -/
def shape : Tree → Shape
  | node shape _ => shape

/-- The trees below the root of a tree. -/
def children : Tree → List Tree
  | node _ children => children

mutual

/-- The number of nodes of a tree. -/
def size : Tree → Nat
  | node _ children => sizeAll children + 1

/-- The number of nodes of a list of trees. -/
def sizeAll : List Tree → Nat
  | [] => 0
  | tree :: rest => tree.size + sizeAll rest

end

theorem size_le_sizeAll {tree : Tree} {trees : List Tree} (inside : tree ∈ trees) :
    tree.size ≤ sizeAll trees := by
  induction trees with
  | nil => simp at inside
  | cons head rest ih =>
    rw [sizeAll]
    rcases List.mem_cons.1 inside with rfl | later
    · omega
    · have := ih later
      omega

theorem size_lt_of_mem {tree child : Tree} (below : child ∈ tree.children) :
    child.size < tree.size := by
  cases tree with
  | node shape children =>
    have : child.size ≤ sizeAll children := size_le_sizeAll below
    rw [size]
    omega

theorem sizeAll_append (front back : List Tree) :
    sizeAll (front ++ back) = sizeAll front + sizeAll back := by
  induction front with
  | nil => simp [sizeAll]
  | cons tree rest ih =>
    rw [List.cons_append, sizeAll, sizeAll, ih]
    omega

theorem sizeAll_reverse (trees : List Tree) : sizeAll trees.reverse = sizeAll trees := by
  induction trees with
  | nil => rfl
  | cons tree rest ih =>
    rw [List.reverse_cons, sizeAll_append, ih, sizeAll, sizeAll, sizeAll]
    omega

theorem sizeAll_filter_le (keep : Tree → Bool) (trees : List Tree) :
    sizeAll (trees.filter keep) ≤ sizeAll trees := by
  induction trees with
  | nil => exact Nat.le_refl _
  | cons tree rest ih =>
    rw [List.filter_cons, sizeAll]
    split
    · rw [sizeAll]
      omega
    · omega

end Tree

/-- A node of a syntax tree, with the kinds of the nodes above it, the nearest first. -/
structure Cursor where
  tree : Tree
  above : List String := []
deriving Inhabited

namespace Cursor

/-- The kind of the node. -/
def kind (cursor : Cursor) : String := cursor.tree.shape.kind

/-- The offset of the first byte of the node. -/
def start (cursor : Cursor) : Nat := cursor.tree.shape.start

/-- The offset behind the last byte of the node. -/
def stop (cursor : Cursor) : Nat := cursor.tree.shape.stop

/-- Whether the node has a name in the grammar. -/
def isNamed (cursor : Cursor) : Bool := cursor.tree.shape.named

/-- How large the tree below the node is. -/
def size (cursor : Cursor) : Nat := cursor.tree.size

/-- The children of the node. -/
def children (cursor : Cursor) : List Cursor :=
  cursor.tree.children.map fun child => ⟨child, cursor.kind :: cursor.above⟩

/-- The named children of the node, without comments. -/
def named (cursor : Cursor) : List Cursor :=
  cursor.children.filter fun child => child.isNamed && child.kind != "comment"

/-- The first named child that is no comment. -/
def firstNamed? (cursor : Cursor) : Option Cursor := cursor.named.head?

/-- The children that fill a field. -/
def fields (cursor : Cursor) (name : String) : List Cursor :=
  cursor.children.filter fun child => child.tree.shape.field == some name

/-- The first child that fills a field. -/
def field? (cursor : Cursor) (name : String) : Option Cursor :=
  cursor.children.find? fun child => child.tree.shape.field == some name

/-- Whether the node has a plain token of a kind among its children. -/
def hasToken (cursor : Cursor) (token : String) : Bool :=
  cursor.children.any fun child => !child.isNamed && child.kind == token

/-- A node lies below another one: it is a child of that one, or lies below a node that does. -/
inductive Below : Cursor → Cursor → Prop
  | child {low high : Cursor} : low ∈ high.children → Below low high
  | trans {low middle high : Cursor} : Below low middle → Below middle high → Below low high

theorem Below.size_lt {low high : Cursor} (below : low.Below high) : low.size < high.size := by
  induction below with
  | child inside =>
    obtain ⟨tree, there, rfl⟩ := List.mem_map.1 inside
    exact Tree.size_lt_of_mem there
  | trans _ _ first second => exact Nat.lt_trans first second

theorem below_of_mem_named {cursor child : Cursor} (inside : child ∈ cursor.named) :
    child.Below cursor :=
  .child (List.mem_filter.1 inside).1

theorem below_of_mem_fields {cursor child : Cursor} {name : String}
    (inside : child ∈ cursor.fields name) : child.Below cursor :=
  .child (List.mem_filter.1 inside).1

theorem below_of_field? {cursor child : Cursor} {name : String}
    (found : cursor.field? name = some child) : child.Below cursor :=
  .child (List.mem_of_find?_eq_some found)

theorem below_of_firstNamed? {cursor child : Cursor} (found : cursor.firstNamed? = some child) :
    child.Below cursor :=
  below_of_mem_named (List.mem_of_mem_head? found)

end Cursor

end CodeGraph

import CodeGraph.Source.Tree

/-!
# The nodes of a tree

All nodes of a tree, each given as the tree below it, in the order of the text: a node comes before what
is below it (`Tree.nodes`, `Tree.descendants`).
-/

namespace CodeGraph

namespace Tree

mutual

/-- All trees below the root of a tree. -/
def descendants : Tree → List Tree
  | node _ children => descendantsOf children

/-- The trees of a list and all trees below their roots. -/
def descendantsOf : List Tree → List Tree
  | [] => []
  | tree :: rest => tree :: (tree.descendants ++ descendantsOf rest)

end

mutual

theorem mem_descendants_trans {low middle : Tree} (inside : low ∈ middle.descendants) :
    (high : Tree) → middle ∈ high.descendants → low ∈ high.descendants
  | node _ children, there => by
    rw [descendants] at there ⊢
    exact mem_descendantsOf_trans inside children there

theorem mem_descendantsOf_trans {low middle : Tree} (inside : low ∈ middle.descendants) :
    (trees : List Tree) → middle ∈ descendantsOf trees → low ∈ descendantsOf trees
  | [], there => by
    rw [descendantsOf] at there
    cases there
  | tree :: rest, there => by
    rw [descendantsOf, List.mem_cons, List.mem_append] at there ⊢
    rcases there with rfl | here | later
    · exact .inr (.inl inside)
    · exact .inr (.inl (mem_descendants_trans inside tree here))
    · exact .inr (.inr (mem_descendantsOf_trans inside rest later))

end

theorem mem_descendantsOf {tree : Tree} {trees : List Tree} (inside : tree ∈ trees) :
    tree ∈ descendantsOf trees := by
  induction trees with
  | nil => cases inside
  | cons head rest ih =>
    rw [descendantsOf]
    rcases List.mem_cons.1 inside with rfl | later
    · exact List.mem_cons_self
    · exact List.mem_cons_of_mem _ (List.mem_append_right _ (ih later))

/-- All nodes of a tree: its root, then all nodes below. -/
def nodes (tree : Tree) : List Tree := tree :: tree.descendants

theorem descendantsOf_eq (trees : List Tree) : descendantsOf trees = trees.flatMap nodes := by
  induction trees with
  | nil => rfl
  | cons tree rest ih => rw [descendantsOf, ih, List.flatMap_cons, nodes, List.cons_append]

/-- Below the root are the nodes of its children, child by child. -/
theorem nodes_eq (tree : Tree) : tree.nodes = tree :: tree.children.flatMap nodes := by
  cases tree with
  | node shape children => rw [nodes, descendants, descendantsOf_eq, Tree.children]

theorem mem_nodes_self (tree : Tree) : tree ∈ tree.nodes := List.mem_cons_self

/-- The nodes of a child are nodes of the tree. -/
theorem nodes_subset_of_mem {tree child : Tree} (inside : child ∈ tree.children) :
    child.nodes ⊆ tree.nodes := by
  intro part there
  rw [nodes_eq tree]
  exact List.mem_cons_of_mem _ (List.mem_flatMap.2 ⟨child, inside, there⟩)

end Tree

/-- The trees below the root of a tree are those of the nodes below. -/
theorem Cursor.Below.mem_descendants {low high : Cursor} (below : low.Below high) :
    low.tree ∈ high.tree.descendants := by
  induction below with
  | @child low high inside =>
    obtain ⟨tree, there, rfl⟩ := List.mem_map.1 inside
    obtain ⟨⟨shape, children⟩, above⟩ := high
    rw [Tree.descendants]
    exact Tree.mem_descendantsOf there
  | @trans low middle high _ _ first second => exact Tree.mem_descendants_trans first high.tree second

end CodeGraph

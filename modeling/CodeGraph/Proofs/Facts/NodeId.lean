import CodeGraph.Facts.Basic
import CodeGraph.Proofs.Graph.EdgeId

/-!
# Ids of the nodes of a file

The id of a node tells the kind of the node and the bytes that its syntax node covers
(`SourceFile.id_inj`). So nodes that share an id stand for the same stretch of the text. Behind the path
of the file the ids are plain, whatever the path is (`SourceFile.plain_idBehind`).
-/

namespace CodeGraph

namespace SourceFile

/-- The part of a node id behind the path of the file. -/
def idBehind (cursor : Cursor) (kind : NodeKind) : String :=
  kind.name ++ ":" ++ toString cursor.start ++ "-" ++ toString cursor.stop

theorem id_nodeOf (file : SourceFile) (cursor : Cursor) (kind : NodeKind) (name : Option String) :
    (file.nodeOf cursor kind name).id = (file.path.text ++ ":") ++ idBehind cursor kind := by
  simp [nodeOf, idBehind, String.append_assoc]

/-- A numeral is made of digits. -/
theorem not_mem_numeral {c : Char} (other : c.isDigit = false) (n : Nat) :
    c ∉ (toString n).toList := by
  rw [Nat.toString_eq_repr, Nat.toList_repr]
  intro inside
  rw [Nat.isDigit_of_mem_toDigits (by decide) (by decide) inside] at other
  cases other

theorem toList_idBehind (cursor : Cursor) (kind : NodeKind) :
    (idBehind cursor kind).toList =
      kind.name.toList ++ ':' :: ((toString cursor.start).toList ++
        '-' :: (toString cursor.stop).toList) := by
  simp [idBehind]

theorem numeral_inj {m n : Nat} (same : (toString m).toList = (toString n).toList) : m = n := by
  rw [Nat.toString_eq_repr, Nat.toString_eq_repr, Nat.toList_repr, Nat.toList_repr] at same
  have read : ∀ n : Nat, Nat.ofDigitChars 10 (Nat.toDigits 10 n) 0 = n := fun _ =>
    Nat.ofDigitChars_toDigits (by decide) (by decide)
  rw [← read m, same, read n]

/-- The end of a node id tells the kind of the node and the bytes that it covers. -/
theorem idBehind_inj {cursor cursor' : Cursor} {kind kind' : NodeKind}
    (same : idBehind cursor kind = idBehind cursor' kind') :
    kind = kind' ∧ cursor.start = cursor'.start ∧ cursor.stop = cursor'.stop := by
  have texts := congrArg String.toList same
  rw [toList_idBehind, toList_idBehind] at texts
  have colon : ∀ kind : NodeKind, ':' ∉ kind.name.toList := by
    intro kind
    cases kind <;> decide
  obtain ⟨names, texts⟩ := split_at_char (colon kind) (colon kind') texts
  have dash : ∀ n : Nat, '-' ∉ (toString n).toList := not_mem_numeral (by decide)
  obtain ⟨starts, stops⟩ := split_at_char (dash _) (dash _) texts
  refine ⟨?_, numeral_inj starts, numeral_inj stops⟩
  have read := kind.ofName?_name
  rw [String.toList_inj.1 names, kind'.ofName?_name] at read
  exact (Option.some.inj read).symm

/-- An id tells the kind of the node and the bytes that it covers. -/
theorem id_inj {file : SourceFile} {cursor cursor' : Cursor} {kind kind' : NodeKind}
    {name name' : Option String}
    (same : (file.nodeOf cursor kind name).id = (file.nodeOf cursor' kind' name').id) :
    kind = kind' ∧ cursor.start = cursor'.start ∧ cursor.stop = cursor'.stop := by
  have texts := congrArg String.toList same
  simp only [id_nodeOf, String.toList_append] at texts
  exact idBehind_inj (String.toList_inj.1 (List.append_cancel_left texts))

/-- The end of a node id contains neither of the separators in the id of an edge. -/
theorem plain_idBehind (cursor : Cursor) (kind : NodeKind) : Graph.Plain (idBehind cursor kind) := by
  have clear : ∀ c : Char, c.isDigit = false → c ≠ ':' → c ≠ '-' → (∀ kind : NodeKind,
      c ∉ kind.name.toList) → c ∉ (idBehind cursor kind).toList := by
    intro c other colon dash letters inside
    rw [toList_idBehind] at inside
    simp only [List.mem_append, List.mem_cons] at inside
    rcases inside with inside | rfl | inside | rfl | inside
    · exact letters kind inside
    · exact colon rfl
    · exact not_mem_numeral other _ inside
    · exact dash rfl
    · exact not_mem_numeral other _ inside
  have angle : ∀ kind : NodeKind, '>' ∉ kind.name.toList := by
    intro kind
    cases kind <;> decide
  have hash : ∀ kind : NodeKind, '#' ∉ kind.name.toList := by
    intro kind
    cases kind <;> decide
  refine ⟨fun arrow => ?_, clear '#' (by decide) (by decide) (by decide) hash⟩
  refine clear '>' (by decide) (by decide) (by decide) angle ?_
  exact arrow.subset (by simp [CodeGraph.arrow])

/-- A node that stands for some node of the syntax tree of a file. A variable or a parameter has the
text of its syntax node for its name. -/
def Draws (file : SourceFile) (node : Node) : Prop :=
  ∃ cursor kind name, Graph.SameNode node (file.nodeOf cursor kind name) ∧
    (kind.isBinding = true → name = some (file.textOf cursor))

theorem draws_nodeOf (file : SourceFile) (cursor : Cursor) {kind : NodeKind} {name : Option String}
    (named : kind.isBinding = true → name = some (file.textOf cursor)) :
    file.Draws (file.nodeOf cursor kind name) :=
  ⟨cursor, kind, name, ⟨rfl, rfl, rfl, rfl⟩, named⟩

/-- Properties do not matter for what a node stands for. -/
theorem Draws.set {file : SourceFile} {node : Node} (draws : file.Draws node) (key : String)
    (value : PropertyValue) : file.Draws (node.set key value) := draws

/-- Nodes of a file that share an id are of one kind. -/
theorem Draws.kind_eq {file : SourceFile} {node other : Node} (draws : file.Draws node)
    (draws' : file.Draws other) (same : node.id = other.id) : node.kind = other.kind := by
  obtain ⟨cursor, kind, name, ⟨id, kinds, -⟩, -⟩ := draws
  obtain ⟨cursor', kind', name', ⟨id', kinds', -⟩, -⟩ := draws'
  obtain ⟨equal, -⟩ := id_inj ((id.symm.trans same).trans id')
  rw [kinds, kinds']
  exact equal

end SourceFile

end CodeGraph

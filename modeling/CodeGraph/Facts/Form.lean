import CodeGraph.Source.Tree

/-!
# Forms of syntax

The kinds of syntax nodes, sorted by what the walk does with them: as a statement, as an expression,
as a pattern that binds names, or as an annotation that carries no value.
-/

namespace CodeGraph

/-- Whether a kind of node belongs to the types and annotations, which carry no value. -/
def isTypeKind (kind : String) : Bool :=
  kind.endsWith "_type" ||
    ["type_annotation", "type_arguments", "type_parameters", "type_identifier", "type_query",
      "type_predicate_annotation", "asserts_annotation", "omitting_type_annotation",
      "opting_type_annotation", "implements_clause", "decorator", "comment"].contains kind

/-- Whether a kind of statement carries neither control nor values. -/
def isInertKind (kind : String) : Bool :=
  ["import_statement", "interface_declaration", "type_alias_declaration", "ambient_declaration",
    "empty_statement", "function_signature", "comment", "hash_bang_line"].contains kind

/-- Whether a kind of expression passes on the value of the call inside it. -/
def isTransparentKind (kind : String) : Bool :=
  ["parenthesized_expression", "await_expression", "non_null_expression", "as_expression",
    "satisfies_expression", "type_assertion"].contains kind

/-- What a node is as a statement. -/
inductive StatementForm where
  | block
  | declaration
  | expression
  | returns
  | throws
  | conditional
  | forLoop
  | forEach
  | loop
  | switch
  | guarded
  | breaks
  | continues
  | labelled
  | exported
  | function
  /-- A class or an enumeration. -/
  | classLike
  | module
  | faulty
  | inert
  /-- Any other statement: its node is looked at as an expression. -/
  | plain
deriving DecidableEq, Repr

/-- What a node of a kind is as a statement. -/
def StatementForm.ofKind (kind : String) : StatementForm :=
  match kind with
  | "statement_block" => .block
  | "lexical_declaration" => .declaration
  | "variable_declaration" => .declaration
  | "expression_statement" => .expression
  | "return_statement" => .returns
  | "throw_statement" => .throws
  | "if_statement" => .conditional
  | "for_statement" => .forLoop
  | "for_in_statement" => .forEach
  | "while_statement" => .loop
  | "do_statement" => .loop
  | "switch_statement" => .switch
  | "try_statement" => .guarded
  | "break_statement" => .breaks
  | "continue_statement" => .continues
  | "labeled_statement" => .labelled
  | "export_statement" => .exported
  | "function_declaration" => .function
  | "generator_function_declaration" => .function
  | "class_declaration" => .classLike
  | "abstract_class_declaration" => .classLike
  | "enum_declaration" => .classLike
  | "module" => .module
  | "internal_module" => .module
  | "ERROR" => .faulty
  | kind => if isInertKind kind || isTypeKind kind then .inert else .plain

/-- What a node is as an expression. -/
inductive ExpressionForm where
  /-- A name that is read. -/
  | reference
  | function
  | method
  /-- A class or an enumeration. -/
  | classLike
  | call
  | assignment
  /-- An assignment that also reads what it assigns to. -/
  | augmented
  | update
  /-- A key with a value, in an object. -/
  | pair
  | type
  /-- Any other expression: its children are looked at. -/
  | compound
deriving DecidableEq, Repr

/-- What a node of a kind is as an expression. -/
def ExpressionForm.ofKind (kind : String) : ExpressionForm :=
  match kind with
  | "identifier" => .reference
  | "shorthand_property_identifier" => .reference
  | "function_expression" => .function
  | "function" => .function
  | "generator_function" => .function
  | "arrow_function" => .function
  | "method_definition" => .method
  | "class" => .classLike
  | "call_expression" => .call
  | "new_expression" => .call
  | "assignment_expression" => .assignment
  | "augmented_assignment_expression" => .augmented
  | "update_expression" => .update
  | "pair" => .pair
  | kind => if isTypeKind kind then .type else .compound

/-- What a node is as a pattern. -/
inductive PatternForm where
  | name
  /-- Several patterns side by side. -/
  | group
  /-- A key with the pattern for its value. -/
  | pair
  /-- A pattern with a default. -/
  | defaulted
  /-- A pattern inside a wrapper. -/
  | wrapped
  /-- A property that is written: the object that has it is read. -/
  | property
  | other
deriving DecidableEq, Repr

/-- What a node of a kind is as a pattern. -/
def PatternForm.ofKind (kind : String) : PatternForm :=
  match kind with
  | "identifier" => .name
  | "shorthand_property_identifier_pattern" => .name
  | "object_pattern" => .group
  | "array_pattern" => .group
  | "pair_pattern" => .pair
  | "assignment_pattern" => .defaulted
  | "object_assignment_pattern" => .defaulted
  | "rest_pattern" => .wrapped
  | "parenthesized_expression" => .wrapped
  | "non_null_expression" => .wrapped
  | "member_expression" => .property
  | "subscript_expression" => .property
  | _ => .other

/-- Whether the value of a node goes anywhere, by the kinds of the nodes above it: wrappers pass it
on, a statement that is only an expression drops it, and so does the end of the tree. -/
def isConsumedBelow : List String → Bool
  | [] => false
  | kind :: above =>
    if isTransparentKind kind then isConsumedBelow above
    else kind != "expression_statement"

end CodeGraph

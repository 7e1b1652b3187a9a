import ModelQuery.Text.Blank

/-!
# Filter expressions

An expression is a text together with the tree that was read from it. The tree keeps what was
written: keywords, attributes, operators and values verbatim, and the byte offsets at which keywords
and operators stand. Nothing in it is resolved or checked against a table.
-/

namespace ModelQuery

/-- How a value is written: as a bare word, or between quotes of one kind. -/
inductive Quote where
  | bare
  | single
  | double
  deriving DecidableEq, Repr

/-- A value as it is written, with its quotes. -/
structure WrittenValue where
  quote : Quote
  raw : String
  deriving DecidableEq, Repr

namespace Expression

/-- A node of an expression: a group with its keyword and the offset of that keyword, or a condition
with the offset of its operator. In a tree that was not read from a text an offset may be any
word. -/
inductive Node where
  | group (keyword : String) (items : List Node) (offset : Nat)
  | condition (name operator : String) (value : WrittenValue) (operatorOffset : Nat)
  deriving Repr

end Expression

/-- A text and the tree that was read from it. Offsets of the tree are byte offsets of the text. -/
structure Expression where
  text : String
  root : Expression.Node
  deriving Repr

namespace Expression

/-- The text without line breaks, wherever they stand, and without blank space at its ends. -/
def normalize (text : String) : String :=
  String.ofList (Text.trim (text.toList.filter fun c ↦ !Text.isLineBreak c))

end Expression

end ModelQuery

import ModelQuery.Attribute.Resolve
import ModelQuery.Expression.Pair
import ModelQuery.Expression.Parse
import ModelQuery.Expression.Value
import ModelQuery.Filter.Basic

/-!
# The filter of an expression

`Filter.ofExpression` turns the tree of an expression into a filter: keywords and operators are
looked up, attributes are resolved, and values lose their quotes. It takes any tree, also one that
no text has, and any way of resolving attributes. `Filter.parse` reads a text and makes its filter,
and `Filter.parseByPairs` does so in the steps of `Pairs.parse`.
-/

namespace ModelQuery

/-- A way of finding the identifier that a name stands for. -/
abbrev Resolver := String → Except Error AttributeId

namespace Filter

/-- The refusal of a keyword or an operator that does not exist, at its offset in the text. Its
column counts bytes. The offset may be any word, since the tree need not be one of the text. -/
def unsupportedAt (text : String) (offset : Nat) (fault : ExpressionFault) : Error :=
  .expression ⟨text, fault, 1, Text.nextWord offset, offset⟩

mutual

/-- The filter of a node of an expression with the given text. The keyword of a group is looked up
before its items are, and the attribute of a condition is resolved before its operator is looked
up. -/
def ofNode (resolver : Resolver) (text : String) : Expression.Node → Except Error Filter
  | .group keyword items offset =>
      match Combinator.ofKeyword? keyword with
      | none => .error (unsupportedAt text offset (.unsupportedKeyword keyword))
      | some combinator => .group combinator <$> ofNodes resolver text items
  | .condition name operator value operatorOffset => do
      let id ← resolver name
      match Operator.ofSymbol? operator with
      | none => .error (unsupportedAt text operatorOffset (.unsupportedOperator operator))
      | some found => pure (.condition ⟨id.text, found, value.content⟩)

/-- The filters of several nodes, in order, or the first error. -/
def ofNodes (resolver : Resolver) (text : String) :
    List Expression.Node → Except Error (List Filter)
  | [] => pure []
  | node :: nodes => do
      let filter ← ofNode resolver text node
      let filters ← ofNodes resolver text nodes
      pure (filter :: filters)

end

/-- The filter of an expression, with attributes resolved as given. -/
def ofExpression (resolver : Resolver) (expression : Expression) : Except Error Filter :=
  ofNode resolver expression.text expression.root

/-- The filter that a text describes, with attributes of the catalogue and integer literals. -/
def parse (text : String) : Except Error Filter := do
  let expression ← Expression.parse text
  ofExpression AttributeId.resolve expression

/-- The filter that a text describes, by way of pairs. There is no result if more than `calls` calls
inside one another are needed to make the tree. -/
def parseByPairs (calls : Nat) (text : String) : ExceptT Error Option Filter := do
  let expression ← Pairs.parse calls text
  ExceptT.mk (some (ofExpression AttributeId.resolve expression))

end Filter

end ModelQuery

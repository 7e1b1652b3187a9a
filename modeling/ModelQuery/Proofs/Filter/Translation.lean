import ModelQuery.Filter.OfExpression

/-!
# When a node has a filter

`Filter.ofNode` succeeds on a condition exactly where the attribute is resolved and the operator
exists, and on a group exactly where the keyword exists and every item has a filter. Each theorem
says so for one shape of node, together with the filter that is returned.
-/

namespace ModelQuery.Filter

open Expression (Node)

variable {resolver : Resolver} {text : String}

/-- The filter of a condition. -/
theorem ofNode_condition_eq_ok_iff {name operator : String} {value : WrittenValue} {offset : Nat}
    {filter : Filter} :
    ofNode resolver text (.condition name operator value offset) = .ok filter ↔
      ∃ id found, resolver name = .ok id ∧ Operator.ofSymbol? operator = some found ∧
        filter = .condition ⟨id.text, found, value.content⟩ := by
  rw [ofNode]
  cases resolver name with
  | error error => simp [bind, Except.bind]
  | ok id =>
      cases Operator.ofSymbol? operator with
      | none => simp [bind, Except.bind]
      | some found => simp [bind, Except.bind, pure, Except.pure, eq_comm]

/-- The filter of a group. -/
theorem ofNode_group_eq_ok_iff {keyword : String} {items : List Node} {offset : Nat}
    {filter : Filter} :
    ofNode resolver text (.group keyword items offset) = .ok filter ↔
      ∃ combinator members, Combinator.ofKeyword? keyword = some combinator ∧
        ofNodes resolver text items = .ok members ∧ filter = .group combinator members := by
  rw [ofNode]
  cases Combinator.ofKeyword? keyword with
  | none => simp
  | some combinator =>
      cases ofNodes resolver text items with
      | error error => simp [Functor.map, Except.map]
      | ok members => simp [Functor.map, Except.map, eq_comm]

/-- The filters of several nodes. -/
theorem ofNodes_cons_eq_ok_iff {node : Node} {nodes : List Node} {filters : List Filter} :
    ofNodes resolver text (node :: nodes) = .ok filters ↔
      ∃ filter further, ofNode resolver text node = .ok filter ∧
        ofNodes resolver text nodes = .ok further ∧ filters = filter :: further := by
  rw [ofNodes]
  cases ofNode resolver text node with
  | error error => simp [bind, Except.bind]
  | ok filter =>
      cases ofNodes resolver text nodes with
      | error error => simp [bind, Except.bind]
      | ok further => simp [bind, Except.bind, pure, Except.pure, eq_comm]

/-- The filter that a text describes is the filter of the expression that it is. -/
theorem parse_eq_ok_iff {filter : Filter} :
    parse text = .ok filter ↔ ∃ expression, Expression.parse text = .ok expression ∧
      ofNode AttributeId.resolve expression.text expression.root = .ok filter := by
  unfold parse
  cases Expression.parse text with
  | error error => simp [bind, Except.bind]
  | ok expression => simp [bind, Except.bind, ofExpression]

end ModelQuery.Filter

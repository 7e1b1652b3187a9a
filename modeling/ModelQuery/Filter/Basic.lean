import ModelQuery.Filter.Combinator
import ModelQuery.Filter.Operator
import ModelQuery.Json.Basic

/-!
# Filter trees

A filter is a condition on one attribute or a group of filters. `Filter.conditions` lists the
conditions from left to right, `Filter.size` counts conditions and groups together, and
`Filter.toJson` is the form that a request carries.
-/

namespace ModelQuery

/-- A condition: the written form of an attribute identifier, an operator, and a value. -/
structure Condition where
  id : String
  operator : Operator
  value : String
  deriving DecidableEq, Repr

/-- A filter is a condition, or a group of filters that a combinator joins. -/
inductive Filter where
  | condition (single : Condition)
  | group (combinator : Combinator) (members : List Filter)
  deriving Repr

namespace Filter

/-- The filters directly below this one. -/
def children : Filter → List Filter
  | .condition _ => []
  | .group _ members => members

/-- The filter is a group. -/
def isGroup : Filter → Bool
  | .condition _ => false
  | .group .. => true

mutual

/-- The number of conditions and groups of the filter. -/
def size : Filter → Nat
  | .condition _ => 1
  | .group _ members => 1 + sizeAll members

/-- The number of conditions and groups of several filters together. -/
def sizeAll : List Filter → Nat
  | [] => 0
  | member :: members => size member + sizeAll members

end

mutual

/-- The conditions of the filter from left to right. -/
def conditions : Filter → List Condition
  | .condition single => [single]
  | .group _ members => conditionsAll members

/-- The conditions of several filters from left to right. -/
def conditionsAll : List Filter → List Condition
  | [] => []
  | member :: members => conditions member ++ conditionsAll members

end

mutual

/-- A condition is an object whose one key is the canonical name of the operator, and a group is an
object whose one key is the keyword. -/
def toJson : Filter → Json
  | .condition ⟨id, operator, value⟩ =>
      .object [(operator.canonicalName, .array [.text id, .text value])]
  | .group combinator members => .object [(combinator.keyword, .array (toJsonAll members))]

/-- The forms of several filters, in order. -/
def toJsonAll : List Filter → List Json
  | [] => []
  | member :: members => toJson member :: toJsonAll members

end

end Filter

end ModelQuery

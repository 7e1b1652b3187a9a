/-!
# What a reader of expressions may expect

`Construct` enumerates the parts of an expression by which a refusal says what was expected.
`expectation` words a refusal: it names each expected construct once, in one fixed order.
-/

namespace ModelQuery

/-- A part of an expression that a reader may expect next. `endOfText` is the end of the expression,
`whole` the expression itself, `group` a whole group with its keyword, and `members` what stands
between its parentheses; a condition consists of `attributeName`, `operator` and one of the three
forms of a value. -/
inductive Construct where
  | endOfText
  | whole
  | group
  | members
  | condition
  | attributeName
  | keyword
  | openParenthesis
  | closeParenthesis
  | comma
  | operator
  | singleQuoted
  | doubleQuoted
  | bareWord
  deriving DecidableEq, Repr

namespace Construct

/-- Every construct, in the order in which a refusal names them. -/
def all : List Construct :=
  [endOfText, whole, group, members, condition, attributeName, keyword, openParenthesis,
    closeParenthesis, comma, operator, singleQuoted, doubleQuoted, bareWord]

/-- The list of all constructs leaves none out. -/
theorem mem_all (construct : Construct) : construct ∈ all := by
  cases construct <;> decide

/-- The words for a construct in a refusal. -/
def words : Construct → String
  | endOfText => "end of expression"
  | whole => "filter"
  | group => "group expression"
  | members => "group list"
  | condition => "condition"
  | attributeName => "attribute"
  | keyword => "'and', 'or' or 'not'"
  | openParenthesis => "'('"
  | closeParenthesis => "')'"
  | comma => "','"
  | operator => "operator"
  | singleQuoted => "single-quoted value"
  | doubleQuoted => "double-quoted value"
  | bareWord => "value"

/-- The alternatives in words: two are joined by "or", and of more the last follows a comma
and "or". -/
def alternatives : List String → String
  | [] => ""
  | [one] => one
  | [one, other] => one ++ " or " ++ other
  | names => ", ".intercalate (names.dropLast ++ (names.getLast?.map ("or " ++ ·)).toList)

/-- What a refusal says of the constructs that would have been accepted. -/
def expectation (constructs : List Construct) : String :=
  "expected " ++ alternatives ((all.filter (constructs.contains ·)).map words)

end Construct

end ModelQuery

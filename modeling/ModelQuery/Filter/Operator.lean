/-!
# Comparison operators

The eleven operators that a condition may use, each with the symbol by which it is written in an
expression and the canonical name that a request carries. `ofSymbol?_symbol` says that no two
operators share a symbol, and `ofCanonicalName?_canonicalName` the same of the names.
-/

namespace ModelQuery

/-- A comparison of an attribute with a value. `equals`, `contains`, `matchesPattern`, `startsWith`
and `endsWith` disregard letter case; `lacks` is the negation of `contains`, and `differs` that of
equality. -/
inductive Operator where
  | equals
  | differs
  | contains
  | lacks
  | matchesPattern
  | startsWith
  | endsWith
  | less
  | atMost
  | greater
  | atLeast
  deriving DecidableEq, Repr

namespace Operator

/-- Every operator, in the order in which they are listed. -/
def all : List Operator :=
  [equals, differs, contains, lacks, matchesPattern, startsWith, endsWith, less, atMost, greater,
    atLeast]

/-- The symbol that is written in an expression. -/
def symbol : Operator → String
  | equals => "="
  | differs => "!="
  | contains => "~"
  | lacks => "!~"
  | matchesPattern => "=~"
  | startsWith => "^="
  | endsWith => "=$"
  | less => "<"
  | atMost => "<="
  | greater => ">"
  | atLeast => ">="

/-- The name that a request carries. -/
def canonicalName : Operator → String
  | equals => "equals-ignore-case"
  | differs => "does-not-equal"
  | contains => "has-substring-ignore-case"
  | lacks => "does-not-have-substring-ignore-case"
  | matchesPattern => "has-pcre-ignore-case"
  | startsWith => "has-prefix-ignore-case"
  | endsWith => "has-suffix-ignore-case"
  | less => "less-than"
  | atMost => "less-than-or-equals"
  | greater => "greater-than"
  | atLeast => "greater-than-or-equals"

/-- The operator that is written with this symbol. -/
def ofSymbol? (text : String) : Option Operator :=
  all.find? fun operator ↦ operator.symbol == text

/-- The operator that has this canonical name. -/
def ofCanonicalName? (name : String) : Option Operator :=
  all.find? fun operator ↦ operator.canonicalName == name

/-- The operators in the order in which an expression is tried for them: a symbol that another
symbol begins with comes after it. -/
def readingOrder : List Operator :=
  [differs, matchesPattern, endsWith, equals, lacks, contains, startsWith, atMost, atLeast, less,
    greater]

/-- The list of all operators leaves none out. -/
theorem mem_all (operator : Operator) : operator ∈ all := by
  cases operator <;> decide

/-- Every operator is tried. -/
theorem mem_readingOrder (operator : Operator) : operator ∈ readingOrder := by
  cases operator <;> decide

/-- An operator is found by its symbol. -/
theorem ofSymbol?_symbol (operator : Operator) : ofSymbol? operator.symbol = some operator := by
  cases operator <;> decide

/-- What is found by a symbol is the operator that has it. -/
theorem ofSymbol?_eq_some_iff {text : String} {operator : Operator} :
    ofSymbol? text = some operator ↔ operator.symbol = text := by
  constructor
  · intro h
    have hfound := List.find?_some h
    exact eq_of_beq hfound
  · rintro rfl
    exact ofSymbol?_symbol operator

/-- An operator is found by its canonical name. -/
theorem ofCanonicalName?_canonicalName (operator : Operator) :
    ofCanonicalName? operator.canonicalName = some operator := by
  cases operator <;> decide

end Operator

end ModelQuery

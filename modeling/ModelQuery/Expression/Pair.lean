import ModelQuery.Expression.Parse

/-!
# Expressions by way of what was matched

The reader of expressions matches the grammar first and makes the tree afterwards. What was matched
is recorded as pairs, one for each construct, with the pairs inside it; blank space leaves none, and
neither does the choice between the forms of a value or between a group and a condition.
`Pairs.toNode` walks the pairs and makes the tree. It takes any pairs, and says so where one is
missing or is of another construct.

`Pairs.parse` reads an expression in this way. `Expression.parse` makes the tree while it matches.
-/

namespace ModelQuery

/-- A construct that was matched: the byte offset at which it begins, the text that it took, and the
constructs that were matched inside it, in order. -/
structure Pair where
  rule : Construct
  start : Nat
  text : String
  inner : List Pair

namespace Pairs

open Matcher
open Expression (Node normalize tooDeepAt refusedAt)

/-! ## Matching -/

/-- Match a construct, and make one pair of it and of the pairs inside it. -/
def rule (construct : Construct) (inner : Matcher (List Pair)) : Matcher (List Pair) :=
  fun cursor frontier ↦
    match named construct inner cursor frontier with
    | (.matched pairs next, updated) =>
        let taken := cursor.rest.take (cursor.rest.length - next.rest.length)
        (.matched [⟨construct, cursor.offset, String.ofList taken, pairs⟩] next, updated)
    | (.failed, updated) => (.failed, updated)
    | (.tooDeep offset, updated) => (.tooDeep offset, updated)

/-- Match a token, which has no pairs inside. -/
def token (construct : Construct) (scan : Token.Scanner) : Matcher (List Pair) :=
  rule construct do
    let _ ← scanned scan
    pure []

/-- A value in single quotes, in double quotes, or without quotes. -/
def value : Matcher (List Pair) :=
  otherwise (token .singleQuoted (Token.quoted '\''))
    (otherwise (token .doubleQuoted (Token.quoted '"')) (token .bareWord Token.bareWord))

/-- An attribute, an operator and a value. -/
def condition : Matcher (List Pair) :=
  rule .condition do
    let name ← token .attributeName Token.attributeName
    blanks
    let operator ← token .operator Token.operator
    blanks
    let written ← value
    pure (name ++ operator ++ written)

/-- A comma and the item after it. -/
def furtherItem (item : Matcher (List Pair)) : Matcher (List Pair) := do
  blanks
  let comma ← token .comma (Token.character ',')
  blanks
  let next ← item
  pure (comma ++ next)

/-- One or more items, separated by commas. -/
def members (item : Matcher (List Pair)) : Matcher (List Pair) :=
  rule .members do
    let first ← item
    let further ← many (furtherItem item)
    pure (first ++ further.flatten)

/-- What stands between the parentheses of a group, and the closing parenthesis. -/
def body (item : Matcher (List Pair)) : Matcher (List Pair) := do
  blanks
  let list ← members item
  blanks
  let closing ← token .closeParenthesis (Token.character ')')
  pure (list ++ closing)

/-- A keyword and, in parentheses, the members of the group. Where no matcher for members is given,
the opening parenthesis is one too many. -/
def group (item? : Option (Matcher (List Pair))) : Matcher (List Pair) :=
  rule .group do
    let keyword ← token .keyword Token.keyword
    blanks
    let place ← position
    let opening ← token .openParenthesis (Token.character '(')
    let list ←
      match item? with
      | some item => body item
      | none => refuseDepth place
    pure (keyword ++ opening ++ list)

/-- A group or a condition, with at most `levels` groups open at once. -/
def item : Nat → Matcher (List Pair)
  | 0 => otherwise (group none) condition
  | levels + 1 => otherwise (group (some (item levels))) condition

/-- A whole text that is a group or a condition, with at most `levels` groups open at once. -/
def expression (levels : Nat) : Matcher (List Pair) :=
  rule .whole do
    let root ← item levels
    let finish ← token .endOfText Token.endOfText
    pure (root ++ finish)

/-- Matches a whole text with the grammar. -/
def matchText (levels : Nat) (text : List Char) : Outcome (List Pair) × Frontier :=
  expression levels ⟨0, text⟩ .start

/-! ## Making the tree -/

/-- The pairs without those of parentheses and commas. -/
def withoutPunctuation (pairs : List Pair) : List Pair :=
  pairs.filter fun pair ↦
    !([.openParenthesis, .closeParenthesis, .comma] : List Construct).contains pair.rule

/-- The refusal of what was matched, at an offset of the text. Its column counts bytes. -/
def refusal (given : String) (offset : Nat) (fault : ExpressionFault) : Error :=
  .expression ⟨given, fault, 1, offset + 1, offset⟩

/-- The first of several pairs, and those after it. -/
def next (given : String) (offset : Nat) : List Pair → Except Error (Pair × List Pair)
  | [] => .error (refusal given offset .incomplete)
  | pair :: pairs => .ok (pair, pairs)

/-- The form of a value that a pair is. -/
def quoteOf : Construct → Quote
  | .singleQuoted => .single
  | .doubleQuoted => .double
  | _ => .bare

/-- The node of a pair, with at most `calls` calls inside one another; there is no result if more
are needed. The items of a group are turned into nodes in order, up to the first one that cannot
be. -/
def toNode (given : String) : (calls : Nat) → Pair → ExceptT Error Option Node
  | 0, _ => ExceptT.mk none
  | calls + 1, pair =>
      match pair.rule with
      | .group => do
          let (keyword, pairs) ← next given pair.start (withoutPunctuation pair.inner)
          let (list, _) ← next given pair.start pairs
          let items ← (withoutPunctuation list.inner).mapM (toNode given calls)
          pure (.group keyword.text items pair.start)
      | .condition => do
          let (name, pairs) ← next given pair.start pair.inner
          let (operator, pairs) ← next given pair.start pairs
          let (value, _) ← next given pair.start pairs
          pure (.condition name.text operator.text ⟨quoteOf value.rule, value.text⟩ operator.start)
      | other => throw (refusal given pair.start (.unexpected other))

/-- The tree of the pairs of a whole text. -/
def toRoot (given : String) (calls : Nat) (pairs : List Pair) : ExceptT Error Option Node := do
  let (whole, _) ← next given 0 pairs
  let (root, _) ← next given 0 whole.inner
  toNode given calls root

/-- The expression that a text is, or the reason why it is none, by way of pairs. -/
def parse (calls : Nat) (given : String) : ExceptT Error Option Expression :=
  let normalized := normalize given
  let text := normalized.toList
  match Depth.excess? text with
  | some offset => throw (tooDeepAt given offset)
  | none =>
      match matchText groupLimit text with
      | (.matched pairs _, _) => do
          let root ← toRoot given calls pairs
          pure ⟨normalized, root⟩
      | (.failed, frontier) => throw (refusedAt given text frontier)
      | (.tooDeep offset, _) => throw (tooDeepAt given offset)

end Pairs

end ModelQuery

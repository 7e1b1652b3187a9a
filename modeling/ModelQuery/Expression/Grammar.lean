import ModelQuery.Expression.Basic
import ModelQuery.Expression.Matcher

/-!
# The grammar of expressions

An expression is a condition or a group. A condition is an attribute, an operator and a value; a
group is a keyword and, in parentheses, one or more expressions separated by commas. Blank space may
stand between any two of these parts. `Grammar.expression` matches a whole text.

A group is tried before a condition. A keyword is read wherever a text begins with its letters, so
an attribute such as `android` is first taken for a group, which fails for want of a parenthesis.
-/

namespace ModelQuery.Grammar

open Matcher Expression

/-- A value in single quotes, in double quotes, or without quotes. -/
def value : Matcher WrittenValue :=
  let form (quote : Quote) (construct : Construct) (scan : Token.Scanner) : Matcher WrittenValue :=
    WrittenValue.mk quote <$> token construct scan
  otherwise (form .single .singleQuoted (Token.quoted '\''))
    (otherwise (form .double .doubleQuoted (Token.quoted '"'))
      (form .bare .bareWord Token.bareWord))

/-- An attribute, an operator and a value. -/
def condition : Matcher Node :=
  named .condition do
    let name ← token .attributeName Token.attributeName
    blanks
    let operatorOffset ← position
    let operator ← token .operator Token.operator
    blanks
    let written ← value
    pure (.condition name operator written operatorOffset)

/-- A comma and the item after it. -/
def furtherItem (item : Matcher Node) : Matcher Node := do
  blanks
  let _ ← token .comma (Token.character ',')
  blanks
  item

/-- One or more items, separated by commas. -/
def members (item : Matcher Node) : Matcher (List Node) :=
  named .members do
    let first ← item
    let further ← many (furtherItem item)
    pure (first :: further)

/-- What stands between the parentheses of a group, and the closing parenthesis. -/
def body (item : Matcher Node) : Matcher (List Node) := do
  blanks
  let items ← members item
  blanks
  let _ ← token .closeParenthesis (Token.character ')')
  pure items

/-- A keyword and, in parentheses, the members of the group. Where no matcher for members is given,
the opening parenthesis is one too many. -/
def group (item? : Option (Matcher Node)) : Matcher Node :=
  named .group do
    let offset ← position
    let keyword ← token .keyword Token.keyword
    blanks
    let opening ← position
    let _ ← token .openParenthesis (Token.character '(')
    let items ←
      match item? with
      | some item => body item
      | none => refuseDepth opening
    pure (.group keyword items offset)

/-- A group or a condition, with at most `levels` groups open at once. -/
def item : Nat → Matcher Node
  | 0 => otherwise (group none) condition
  | levels + 1 => otherwise (group (some (item levels))) condition

/-- A whole text that is a group or a condition, with at most `levels` groups open at once. -/
def expression (levels : Nat) : Matcher Node :=
  named .whole do
    let root ← item levels
    let _ ← token .endOfText Token.endOfText
    pure root

end ModelQuery.Grammar

import ModelQuery.Attribute.Id
import ModelQuery.Text.Blank
import ModelQuery.Text.Numeral

/-!
# Integer literals

An attribute may be named by its number, written as an integer literal: an optional sign, then a
radix mark (`0x`, `0o` or `0b` in either case) and digits, or decimal digits without a leading zero.
Single underscores may stand between digits and one may follow the radix mark. Blank space around
the literal does not count. `AttributeId.ofLiteral?` reads one; a number outside the signed 64-bit
range is none.
-/

namespace ModelQuery

namespace Literal

open Text

/-- The radix that the letter of a radix mark stands for. -/
def markedRadix? (letter : Char) : Option Nat :=
  match letter.toLower with
  | 'x' => some 16
  | 'o' => some 8
  | 'b' => some 2
  | _ => none

/-- The text without an underscore at its beginning. -/
def dropUnderscore : List Char → List Char
  | '_' :: rest => rest
  | rest => rest

/-- The radix of an unsigned literal and its digits. The radix mark, and an underscore after it, are
no part of the digits; without a mark the radix is ten. -/
def splitRadix : List Char → Nat × List Char
  | '0' :: letter :: rest =>
      match markedRadix? letter with
      | some radix => (radix, dropUnderscore rest)
      | none => (10, '0' :: letter :: rest)
  | rest => (10, rest)

/-- The digits do not begin with zero, or all of them are zero. -/
def hasNoLeadingZero (digits : List Nat) : Bool :=
  digits.head? != some 0 || digits.all (· == 0)

/-- The number that an unsigned literal stands for. -/
def magnitude? (text : List Char) : Option Nat := do
  let (radix, digits) := splitRadix text
  let values ← separatedDigits? radix digits
  if radix == 10 && !hasNoLeadingZero values then none
  else pure (valueOfDigits radix values)

/-- The number that a literal stands for, of any size. -/
def number? (text : List Char) : Option Int :=
  let (negative, unsigned) := splitSign (trim text)
  (magnitude? unsigned).map fun magnitude ↦
    if negative then -(magnitude : Int) else magnitude

end Literal

/-- The identifier that an integer literal stands for. -/
def AttributeId.ofLiteral? (text : String) : Option AttributeId :=
  Literal.number? text.toList >>= AttributeId.ofInt?

end ModelQuery

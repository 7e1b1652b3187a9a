import ModelQuery.Attribute.Literal
import ModelQuery.Text.Letter

/-!
# Literals in bytes and words

`AttributeId.ofLiteral?` works on characters and on numbers of any size. `Literal.Words.read` reads
a literal as a machine does: a text is cut at byte offsets, which can be done only where a character
ends, and digits are added up in a word of 128 bits. A text that is no literal is told apart from a
step that cannot be carried out.
-/

namespace ModelQuery.Literal.Words

open Text

/-- Why reading breaks down: a text is to be cut where no character ends, or a word is to hold a
number that it has no room for. -/
inductive Breakdown where
  | badCut
  | overflow
  deriving DecidableEq, Repr

/-- The text up to a byte offset, and the text from there on, if a character ends at the offset. -/
def cut? : Nat → List Char → Option (List Char × List Char)
  | 0, text => some ([], text)
  | _ + 1, [] => none
  | offset + 1, c :: rest =>
      if c.utf8Size ≤ offset + 1 then
        (cut? (offset + 1 - c.utf8Size) rest).map fun (before, after) ↦ (c :: before, after)
      else none

/-- The text from a byte offset on, where a character must end. -/
def behind (offset : Nat) (text : List Char) : Except Breakdown (List Char) :=
  match cut? offset text with
  | some (_, after) => .ok after
  | none => .error .badCut

/-- The first byte of the text. -/
def firstByte? : List Char → Option UInt8
  | [] => none
  | c :: _ => (String.utf8EncodeChar c).head?

/-- Whether the text begins with a minus sign, and the text without its sign. An empty text has
neither. -/
def splitSign (text : List Char) : Except Breakdown (Option (Bool × List Char)) :=
  match firstByte? text with
  | none => .ok none
  | some byte =>
      if byte = 0x2D then (fun rest ↦ some (true, rest)) <$> behind 1 text
      else if byte = 0x2B then (fun rest ↦ some (false, rest)) <$> behind 1 text
      else .ok (some (false, text))

/-- The radix marks in small letters, with their radixes. -/
def marks : List (List Char × Nat) :=
  [(['0', 'x'], 16), (['0', 'o'], 8), (['0', 'b'], 2)]

/-- The radix that the first two bytes mark, in any letter case, if they are whole characters. -/
def markedRadix? (text : List Char) : Option Nat := do
  let (mark, _) ← cut? 2 text
  let (_, radix) ← marks.find? (·.1 == fold mark)
  pure radix

/-- The radix of an unsigned literal and the text behind its radix mark. -/
def splitRadix (text : List Char) : Except Breakdown (Nat × List Char) :=
  match markedRadix? text with
  | some radix => (fun digits ↦ (radix, digits)) <$> behind 2 text
  | none => .ok (10, text)

/-- Underscores stand between digits only, and no two of them side by side. -/
def isSeparated (digits : List Char) : Bool :=
  !(digits.isEmpty || digits.head? == some '_' || digits.getLast? == some '_' ||
    (digits.zip digits.tail).contains ('_', '_'))

/-- The digits begin with zero, and one of them is another digit. -/
def hasLeadingZero (digits : List Char) : Bool :=
  digits.head? == some '0' && digits.any (· != '0')

/-- The least number that is too large for a signed word of 128 bits. -/
def wordBound : Nat := 0x80000000000000000000000000000000

/-- A number that is not negative, if a signed word has room for it. -/
def fit? (number : Nat) : Option Nat :=
  if number < wordBound then some number else none

/-- Adds up further digits in a word, if there is room for every number on the way. -/
def accumulate? (radix : Nat) : Nat → List Nat → Option Nat
  | word, [] => some word
  | word, digit :: digits => do
      let product ← fit? (word * radix)
      let sum ← fit? (product + digit)
      accumulate? radix sum digits

/-- The magnitude of a run of digits with underscores between them. -/
def magnitude? (radix : Nat) (digits : List Char) : Option Nat :=
  let digits := if radix = 10 then digits else dropUnderscore digits
  if isSeparated digits then
    let cleaned := digits.filter (· != '_')
    if radix = 10 && hasLeadingZero cleaned then none
    else (digits? radix cleaned).bind (accumulate? radix 0)
  else none

/-- The number in a word with its sign turned, for which there must be room. -/
def negate (word : Int) : Except Breakdown Int :=
  if -(wordBound : Int) ≤ -word ∧ -word < wordBound then .ok (-word) else .error .overflow

/-- The identifier that an integer literal stands for, read in bytes and words. -/
def read (text : String) : Except Breakdown (Option AttributeId) := do
  match ← splitSign (trim text.toList) with
  | none => pure none
  | some (negative, unsigned) =>
      let (radix, digits) ← splitRadix unsigned
      match magnitude? radix digits with
      | none => pure none
      | some magnitude =>
          let number ← if negative then negate magnitude else pure (magnitude : Int)
          pure (AttributeId.ofInt? number)

end ModelQuery.Literal.Words

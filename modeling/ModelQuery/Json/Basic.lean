import ModelQuery.Text.Numeral

/-!
# JSON values and their text

`Json` holds the values that requests are made of; an object keeps its fields in the order in which
they were given. `Json.write` produces the text of a value in a `Layout`, which fixes the white
space between tokens and nothing else: `Layout.compact` has none, and `Layout.indented` puts every
item and every field on a line of its own.
-/

namespace ModelQuery

/-- A JSON value without null. Numbers are natural. -/
inductive Json where
  | text (value : String)
  | number (value : Nat)
  | boolean (value : Bool)
  | array (items : List Json)
  | object (fields : List (String × Json))
  deriving Inhabited

namespace Json

/-- The white space of a text: what stands before an item, or before a closing bracket, at a nesting
depth, and what stands between the colon and the value of a field. -/
structure Layout where
  lineStart : Nat → List Char
  afterColon : List Char

/-- No white space at all. -/
def Layout.compact : Layout :=
  ⟨fun _ ↦ [], []⟩

/-- One line for each item and field, indented by two spaces for each level, and a space after each
colon. -/
def Layout.indented : Layout :=
  ⟨fun depth ↦ '\n' :: List.replicate (2 * depth) ' ', [' ']⟩

/-- How a character is written inside quotes. The quote, the backslash and the control characters
below the space are escaped, and every other character stands for itself. -/
def escape (c : Char) : List Char :=
  match c with
  | '"' => ['\\', '"']
  | '\\' => ['\\', '\\']
  | '\x08' => ['\\', 'b']
  | '\t' => ['\\', 't']
  | '\n' => ['\\', 'n']
  | '\x0c' => ['\\', 'f']
  | '\r' => ['\\', 'r']
  | _ =>
      if c.toNat < 0x20 then
        ['\\', 'u', '0', '0', Nat.digitChar (c.toNat / 16), Nat.digitChar (c.toNat % 16)]
      else [c]

/-- The text between quotes, with escapes. -/
def quote (text : String) : List Char :=
  '"' :: (text.toList.flatMap escape ++ ['"'])

mutual

/-- The text of a value that begins at the given nesting depth. -/
def write (layout : Layout) (depth : Nat) : Json → List Char
  | .text value => quote value
  | .number value => Nat.toDigits 10 value
  | .boolean true => ['t', 'r', 'u', 'e']
  | .boolean false => ['f', 'a', 'l', 's', 'e']
  | .array [] => ['[', ']']
  | .array (item :: items) =>
      '[' :: (layout.lineStart (depth + 1) ++ write layout (depth + 1) item ++
        writeItems layout depth items)
  | .object [] => ['\x7b', '\x7d']
  | .object ((key, value) :: fields) =>
      '\x7b' :: (layout.lineStart (depth + 1) ++ quote key ++ ':' :: layout.afterColon ++
        write layout (depth + 1) value ++ writeFields layout depth fields)

/-- The text of the items after the first one, each after a comma, and the closing bracket. -/
def writeItems (layout : Layout) (depth : Nat) : List Json → List Char
  | [] => layout.lineStart depth ++ [']']
  | item :: items =>
      ',' :: (layout.lineStart (depth + 1) ++ write layout (depth + 1) item ++
        writeItems layout depth items)

/-- The text of the fields after the first one, each after a comma, and the closing brace. -/
def writeFields (layout : Layout) (depth : Nat) : List (String × Json) → List Char
  | [] => layout.lineStart depth ++ ['\x7d']
  | (key, value) :: fields =>
      ',' :: (layout.lineStart (depth + 1) ++ quote key ++ ':' :: layout.afterColon ++
        write layout (depth + 1) value ++ writeFields layout depth fields)

end

/-- The text of the value in the layout. -/
def render (layout : Layout) (value : Json) : String :=
  String.ofList (write layout 0 value)

end Json

end ModelQuery

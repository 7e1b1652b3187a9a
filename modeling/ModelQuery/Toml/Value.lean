import ModelQuery.Toml.Quoted
import ModelQuery.Toml.Scalar
import ModelQuery.Toml.Table

/-!
# Reading TOML values

`readValue?` reads a value at the beginning of a text and returns the text after it. Values nest:
an array holds values on any number of lines, with comments between them, and an inline table holds
assignments on one line. At most `maxNesting` of them may be open at once, and a dotted key may have
at most as many parts.
-/

namespace ModelQuery.Toml

/-- The number of arrays and inline tables that may be open at once, and of parts of a key. -/
def maxNesting : Nat := 79

/-- The text without the spaces and tabs at its beginning. -/
def skipSpaces (text : List Char) : List Char :=
  text.dropWhile isSpace

/-- The text without the blank space, line feeds and comments at its beginning. Inside a comment the
flag is set; a comment goes on to the end of the line and holds printable characters only. -/
def skipLinesFrom : Bool → List Char → List Char
  | _, [] => []
  | true, c :: rest =>
      if c = '\n' then skipLinesFrom false rest
      else if isPrintable c then skipLinesFrom true rest
      else c :: rest
  | false, c :: rest =>
      if isSpace c || c == '\n' then skipLinesFrom false rest
      else if c = '#' then skipLinesFrom true rest
      else c :: rest

/-- The text without the blank space, line feeds and comments at its beginning. -/
def skipLines (text : List Char) : List Char :=
  skipLinesFrom false text

/-- A character of a key without quotes. -/
def isKeyCharacter (c : Char) : Bool :=
  c.isAlpha || c.isDigit || c == '_' || c == '-'

/-- Reads one part of a key: a quoted text on one line, or a run of key characters. -/
def readKeyPart? (text : List Char) : Option (String × List Char) :=
  match readQuotedLine? text with
  | some (value, rest) => some (String.ofList value, rest)
  | none =>
      let name := text.takeWhile isKeyCharacter
      if name.isEmpty then none
      else some (String.ofList name, text.dropWhile isKeyCharacter)

/-- Reads the parts of a key, which points separate, with blank space around each; at most `limit`
of them. -/
def readKeyParts? : Nat → List Char → Option (List String × List Char)
  | 0, _ => none
  | limit + 1, text => do
      let (first, rest) ← readKeyPart? (skipSpaces text)
      match skipSpaces rest with
      | '.' :: rest =>
          let (further, rest) ← readKeyParts? limit rest
          pure (first :: further, rest)
      | rest => pure ([first], rest)

/-- Reads a dotted key and the blank space around it. -/
def readKey? (text : List Char) : Option (KeyPath × List Char) := do
  let (parts, rest) ← readKeyParts? maxNesting text
  let key ← parts.getLast?
  pure (⟨parts.dropLast, key⟩, rest)

/-- Reads a key, an equals sign and a value. -/
def readAssignment? (value : List Char → Option (Item × List Char)) (text : List Char) :
    Option (Assignment × List Char) := do
  let (path, rest) ← readKey? text
  let '=' :: rest := rest | none
  let (item, rest) ← value (skipSpaces rest)
  pure (⟨path, item⟩, rest)

/-- Reads the elements of an array and its closing bracket, where the first element or the bracket
is next. A comma may follow the last element. There are fewer than `limit` elements. -/
def readElements? (value : List Char → Option (Item × List Char)) :
    Nat → List Char → Option (List Item × List Char)
  | 0, _ => none
  | limit + 1, text =>
      match skipLines text with
      | ']' :: rest => some ([], rest)
      | start => do
          let (first, rest) ← value start
          match skipLines rest with
          | ']' :: rest => pure ([first], rest)
          | ',' :: rest =>
              let (further, rest) ← readElements? value limit rest
              pure (first :: further, rest)
          | _ => none

/-- Reads the assignments of an inline table and its closing brace, where an assignment is next. No
comma may follow the last one. There are at most `limit` assignments. -/
def readInline? (value : List Char → Option (Item × List Char)) :
    Nat → List Char → Option (List Assignment × List Char)
  | 0, _ => none
  | limit + 1, text => do
      let (first, rest) ← readAssignment? value text
      match skipSpaces rest with
      | '\x7d' :: rest => pure ([first], rest)
      | ',' :: rest =>
          let (further, rest) ← readInline? value limit rest
          pure (first :: further, rest)
      | _ => none

/-- Reads a table from behind its opening brace. -/
def readTable? (value : List Char → Option (Item × List Char)) (text : List Char) :
    Option (Item × List Char) :=
  match skipSpaces text with
  | '\x7d' :: rest => some (.table .inline [], rest)
  | start => do
      let (assignments, rest) ← readInline? value (start.length + 1) start
      let entries ← Entries.assignAll [] assignments
      pure (.table .inline entries, rest)

/-- Reads a value that is neither an array nor an inline table. -/
def readSimple? (text : List Char) : Option (Item × List Char) :=
  match text with
  | '"' :: _ | '\'' :: _ =>
      (readQuoted? text).map fun (value, rest) ↦ (.text (String.ofList value), rest)
  | _ => Scalar.read? text

/-- Reads a value, with at most `levels` arrays and inline tables open at once. -/
def readValue? : Nat → List Char → Option (Item × List Char)
  | 0, text =>
      match text with
      | '[' :: _ | '\x7b' :: _ => none
      | _ => readSimple? text
  | levels + 1, text =>
      match text with
      | '[' :: rest =>
          (readElements? (readValue? levels) (rest.length + 1) rest).map fun (items, rest) ↦
            (.array items, rest)
      | '\x7b' :: rest => readTable? (readValue? levels) rest
      | _ => readSimple? text

end ModelQuery.Toml

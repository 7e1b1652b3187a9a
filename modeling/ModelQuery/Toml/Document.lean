import ModelQuery.Toml.Value

/-!
# TOML documents

A document is a list of lines: assignments, and headers below which further assignments stand.
`Toml.read?` reads a text as a document and returns the entries of its outermost table, or nothing
if the document is malformed.
-/

namespace ModelQuery.Toml

/-- A line that is neither blank nor a comment. -/
inductive Line where
  | assignment (assignment : Assignment)
  | header (header : Header)

/-- Brings line ends to line feeds. A carriage return anywhere else is malformed. -/
def joinLineEnds? : List Char → Option (List Char)
  | [] => some []
  | '\r' :: '\n' :: rest => (joinLineEnds? rest).map ('\n' :: ·)
  | c :: rest => if c = '\r' then none else (joinLineEnds? rest).map (c :: ·)

/-- The text without a byte order mark at its beginning. -/
def dropByteOrderMark : List Char → List Char
  | '\ufeff' :: rest => rest
  | rest => rest

/-- The text after the end of a line, before which blank space and a comment may stand. The last
line may go without a line feed. -/
def endLine? (text : List Char) : Option (List Char) :=
  let afterComment (rest : List Char) : List Char :=
    match rest with
    | '#' :: rest => rest.dropWhile isPrintable
    | rest => rest
  match afterComment (skipSpaces text) with
  | [] => some []
  | '\n' :: rest => some rest
  | _ => none

/-- Reads a header from behind its first bracket, up to the closing brackets. -/
def readHeader? : List Char → Option (Header × List Char)
  | '[' :: rest => do
      let (path, rest) ← readKey? rest
      let ']' :: ']' :: rest := rest | none
      pure (.row path, rest)
  | rest => do
      let (path, rest) ← readKey? rest
      let ']' :: rest := rest | none
      pure (.table path, rest)

/-- Reads one line that is neither blank nor a comment, and its end. -/
def readLine? : List Char → Option (Line × List Char)
  | '[' :: rest => do
      let (header, rest) ← readHeader? rest
      let rest ← endLine? rest
      pure (.header header, rest)
  | text => do
      let (assignment, rest) ← readAssignment? (readValue? maxNesting) text
      let rest ← endLine? rest
      pure (.assignment assignment, rest)

/-- Reads fewer than `limit` lines, up to the end of the text. -/
def readLines? : Nat → List Char → Option (List Line)
  | 0, _ => none
  | limit + 1, text =>
      match skipLines text with
      | [] => some []
      | start => do
          let (line, rest) ← readLine? start
          let lines ← readLines? limit rest
          pure (line :: lines)

/-- The assignments before the first header, and the sections that the headers begin. -/
def splitSections : List Line → List Assignment × List Section
  | [] => ([], [])
  | line :: lines =>
      let (assignments, sections) := splitSections lines
      match line with
      | .assignment assignment => (assignment :: assignments, sections)
      | .header header => ([], ⟨header, assignments⟩ :: sections)

/-- The entries that the lines build. -/
def build? (lines : List Line) : Option Entries := do
  let (assignments, sections) := splitSections lines
  let entries ← Entries.assignAll [] assignments
  sections.foldlM Entries.addSection entries

/-- The entries of the outermost table of a document. -/
def read? (text : String) : Option Entries := do
  let characters ← joinLineEnds? (dropByteOrderMark text.toList)
  let lines ← readLines? (characters.length + 1) characters
  build? lines

end ModelQuery.Toml

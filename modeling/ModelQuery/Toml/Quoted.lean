import ModelQuery.Text.Numeral

/-!
# Quoted text in TOML

TOML writes a text in one of four forms: between double quotes, with escapes, or between single
quotes, without; and either on one line between single marks or over several lines between triple
marks. `QuotedForm.read?` reads what follows the opening marks, and `quote` writes a text in the
first form that can hold it as it is, or in double quotes with escapes if none can.

Line ends are line feeds: a document is brought to that form before it is read.
-/

namespace ModelQuery.Toml

/-- A form of quoted text: its quotation mark, and whether the mark is tripled, so that line feeds
may stand inside. -/
structure QuotedForm where
  mark : Char
  multiline : Bool
  deriving DecidableEq, Repr

namespace QuotedForm

/-- Double quotes on one line. -/
def basic : QuotedForm := ⟨'"', false⟩

/-- Triple double quotes. -/
def multilineBasic : QuotedForm := ⟨'"', true⟩

/-- Single quotes on one line. -/
def literal : QuotedForm := ⟨'\'', false⟩

/-- Triple single quotes. -/
def multilineLiteral : QuotedForm := ⟨'\'', true⟩

/-- A backslash begins an escape between double quotes only. -/
def hasEscapes (form : QuotedForm) : Bool :=
  form.mark == '"'

end QuotedForm

/-- A space or a tab. -/
def isSpace (c : Char) : Bool :=
  c == ' ' || c == '\t'

/-- A character that may stand for itself in a quoted text or a comment: a tab or any character that
is not an ASCII control character. -/
def isPrintable (c : Char) : Bool :=
  c == '\t' || (0x20 ≤ c.toNat && c.toNat != 0x7F)

/-- The character with the code point that the hexadecimal digits stand for, if there is one. -/
def scalar? (digits : List Char) : Option Char := do
  let values ← Text.digits? 16 digits
  let code := Text.valueOfDigits 16 values
  if h : code.isValidChar then some (Char.ofNatAux code h) else none

/-- The character that an escape stands for, and the number of characters of the escape behind its
backslash. -/
def escape? : List Char → Option (Char × Nat)
  | [] => none
  | c :: rest =>
      match c with
      | 'b' => some ('\x08', 1)
      | 't' => some ('\t', 1)
      | 'n' => some ('\n', 1)
      | 'f' => some ('\x0c', 1)
      | 'r' => some ('\r', 1)
      | '"' => some ('"', 1)
      | '\\' => some ('\\', 1)
      | 'u' =>
          if 4 ≤ rest.length then (scalar? (rest.take 4)).map fun value ↦ (value, 5) else none
      | 'U' =>
          if 8 ≤ rest.length then (scalar? (rest.take 8)).map fun value ↦ (value, 9) else none
      | _ => none

/-- Nothing but spaces stands before the next line feed. -/
def breaksLine (text : List Char) : Bool :=
  (text.dropWhile isSpace).head? == some '\n'

/-- The text without the spaces and line feeds at its beginning. -/
def skipSpacesAndLines (text : List Char) : List Char :=
  text.dropWhile fun c ↦ isSpace c || c == '\n'

/-- Dropping a run of characters leaves no more than there was. -/
theorem length_skipSpacesAndLines_le (text : List Char) :
    (skipSpacesAndLines text).length ≤ text.length :=
  (List.dropWhile_suffix _).length_le

/-- Reads a quoted text from behind its opening marks: the text, and what follows the closing marks.
In a tripled form one or two marks may stand inside, also directly before the closing ones, and a
backslash at the end of a line removes the line feed and all blank space after it. -/
def QuotedForm.read? (form : QuotedForm) : List Char → Option (List Char × List Char)
  | [] => none
  | c :: rest =>
      let prepend (first : Char) (result : Option (List Char × List Char)) :=
        result.map fun (value, following) ↦ (first :: value, following)
      if c = form.mark then
        if form.multiline then
          let marks := ((c :: rest).takeWhile (· == form.mark)).length
          if 3 ≤ marks then
            some (List.replicate (min marks 5 - 3) form.mark, (c :: rest).drop (min marks 5))
          else prepend c (form.read? rest)
        else some ([], rest)
      else if c = '\\' ∧ form.hasEscapes then
        if form.multiline && breaksLine rest then form.read? (skipSpacesAndLines rest)
        else
          match escape? rest with
          | some (value, width) => prepend value (form.read? (rest.drop width))
          | none => none
      else if isPrintable c || (form.multiline && c == '\n') then prepend c (form.read? rest)
      else none
termination_by text => text.length
decreasing_by
  all_goals have := length_skipSpacesAndLines_le rest
  all_goals simp only [List.length_cons, List.length_drop]
  all_goals omega

/-- The text without one line feed at its beginning. -/
def dropLineFeed : List Char → List Char
  | '\n' :: rest => rest
  | rest => rest

/-- Reads a quoted text with its marks. A line feed directly after tripled marks is no part of the
text. -/
def readQuoted? : List Char → Option (List Char × List Char)
  | '"' :: '"' :: '"' :: rest => QuotedForm.multilineBasic.read? (dropLineFeed rest)
  | '"' :: rest => QuotedForm.basic.read? rest
  | '\'' :: '\'' :: '\'' :: rest => QuotedForm.multilineLiteral.read? (dropLineFeed rest)
  | '\'' :: rest => QuotedForm.literal.read? rest
  | _ => none

/-- Reads a quoted text on one line with its marks. -/
def readQuotedLine? : List Char → Option (List Char × List Char)
  | '"' :: rest => QuotedForm.basic.read? rest
  | '\'' :: rest => QuotedForm.literal.read? rest
  | _ => none

/-- An ASCII control character other than a tab or a line feed. -/
def isControl (c : Char) : Bool :=
  (c.toNat < 0x20 && c != '\t' && c != '\n') || c.toNat == 0x7F

/-- The text has three equal marks in a row. -/
def hasTripleMark (mark : Char) : List Char → Bool
  | [] => false
  | c :: rest => [mark, mark, mark].isPrefixOf (c :: rest) || hasTripleMark mark rest

/-- The text can stand in the form with no escape but that of a tab. In double quotes there is then
no backslash either. -/
def QuotedForm.holds (form : QuotedForm) (text : List Char) : Bool :=
  !text.any isControl && !(form.hasEscapes && text.contains '\\') &&
    if form.multiline then !hasTripleMark form.mark text
    else !text.contains form.mark && !text.contains '\n'

/-- The form in which a text is written: the first that can hold it as it is, and failing that
double quotes, tripled if the text has a line feed. -/
def QuotedForm.choose (text : List Char) : QuotedForm :=
  let forms := [QuotedForm.basic, .literal, .multilineBasic, .multilineLiteral]
  (forms.find? fun form ↦ form.holds text).getD
    (if text.contains '\n' then .multilineBasic else .basic)

/-- The text between double quotes, where `marks` quotes stand directly before it. A third quote in
a row is escaped in the tripled form, and every quote in the other. -/
def escapeFrom (multiline : Bool) (marks : Nat) : List Char → List Char
  | [] => []
  | c :: rest =>
      match c with
      | '"' =>
          if multiline && marks < 2 then '"' :: escapeFrom multiline (marks + 1) rest
          else '\\' :: '"' :: escapeFrom multiline 0 rest
      | '\\' => '\\' :: '\\' :: escapeFrom multiline 0 rest
      | '\x08' => '\\' :: 'b' :: escapeFrom multiline 0 rest
      | '\t' => '\\' :: 't' :: escapeFrom multiline 0 rest
      | '\x0c' => '\\' :: 'f' :: escapeFrom multiline 0 rest
      | '\r' => '\\' :: 'r' :: escapeFrom multiline 0 rest
      | '\n' =>
          if multiline then '\n' :: escapeFrom multiline 0 rest
          else '\\' :: 'n' :: escapeFrom multiline 0 rest
      | _ =>
          if isControl c then
            '\\' :: 'u' :: '0' :: '0' :: (Nat.digitChar (c.toNat / 16)).toUpper ::
              (Nat.digitChar (c.toNat % 16)).toUpper :: escapeFrom multiline 0 rest
          else c :: escapeFrom multiline 0 rest

/-- What stands between the marks of the form. -/
def QuotedForm.content (form : QuotedForm) (text : List Char) : List Char :=
  if form.hasEscapes then escapeFrom form.multiline 0 text else text

/-- The marks at either end of the form. -/
def QuotedForm.marks (form : QuotedForm) : List Char :=
  List.replicate (if form.multiline then 3 else 1) form.mark

/-- The quoted text. After tripled marks comes a line feed if the text has any. -/
def quote (text : List Char) : List Char :=
  let form := QuotedForm.choose text
  let opening := if form.multiline && text.contains '\n' then ['\n'] else []
  form.marks ++ opening ++ form.content text ++ form.marks

end ModelQuery.Toml

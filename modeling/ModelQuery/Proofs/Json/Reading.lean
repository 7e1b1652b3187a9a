import ModelQuery.Json.Basic
import ModelQuery.Proofs.Text.Numeral
import ModelQuery.Proofs.Text.Run

/-!
# Reading JSON

`Json.read?` reads the text of a JSON value, with blank space wherever JSON allows it. The main
result, `read?_render`, is that it reads what was written in any layout whose white space is blank:
the layout is lost and the value is not. Both layouts that are in use are such (`isBlank_compact`,
`isBlank_indented`).
-/

namespace ModelQuery.Json

open Text

/-! ## The reader -/

/-- Blank space between the tokens of a text. -/
def isSpace (c : Char) : Bool :=
  c == ' ' || c == '\n' || c == '\t' || c == '\r'

/-- The text without the blank space at its beginning. -/
def skipSpace (text : List Char) : List Char :=
  text.dropWhile isSpace

/-- The character that a letter behind a backslash stands for. -/
def escaped? : Char → Option Char
  | '"' => some '"'
  | '\\' => some '\\'
  | '/' => some '/'
  | 'b' => some '\x08'
  | 'f' => some '\x0c'
  | 'n' => some '\n'
  | 'r' => some '\r'
  | 't' => some '\t'
  | _ => none

/-- The character with the code that the hexadecimal digits stand for, if there is one. -/
def scalar? (digits : List Char) : Option Char := do
  let values ← digits? 16 digits
  let code := valueOfDigits 16 values
  if code.isValidChar then some (Char.ofNat code) else none

/-- A text with one more character at its beginning, and what follows it. -/
def prepend (c : Char) (result : Option (List Char × List Char)) :
    Option (List Char × List Char) :=
  result.map fun (value, rest) ↦ (c :: value, rest)

/-- Reads a text from behind its opening quote, and what follows the closing one. -/
def readText? : List Char → Option (List Char × List Char)
  | [] => none
  | '"' :: rest => some ([], rest)
  | '\\' :: 'u' :: a :: b :: c :: d :: rest => do
      let value ← scalar? [a, b, c, d]
      prepend value (readText? rest)
  | '\\' :: c :: rest => do
      let value ← escaped? c
      prepend value (readText? rest)
  | c :: rest => if c.toNat < 0x20 then none else prepend c (readText? rest)

/-- Reads a natural number. -/
def readNumber? (text : List Char) : Option (Json × List Char) := do
  let digits := text.takeWhile Char.isDigit
  if digits.isEmpty then none
  let values ← digits? 10 digits
  pure (.number (valueOfDigits 10 values), text.dropWhile Char.isDigit)

/-- Reads the key of a field and the colon behind it, up to where the value begins. -/
def readKey? (text : List Char) : Option (String × List Char) := do
  let '"' :: rest := text | none
  let (key, rest) ← readText? rest
  let ':' :: rest := skipSpace rest | none
  pure (String.ofList key, skipSpace rest)

mutual

/-- Reads a value in at most `limit` steps. -/
def readValue? : Nat → List Char → Option (Json × List Char)
  | 0, _ => none
  | limit + 1, start =>
      match start with
      | '"' :: rest => (readText? rest).map fun (value, rest) ↦ (.text (String.ofList value), rest)
      | 't' :: 'r' :: 'u' :: 'e' :: rest => some (.boolean true, rest)
      | 'f' :: 'a' :: 'l' :: 's' :: 'e' :: rest => some (.boolean false, rest)
      | '[' :: rest =>
          match skipSpace rest with
          | ']' :: rest => some (.array [], rest)
          | first => do
              let (item, rest) ← readValue? limit first
              let (items, rest) ← readItems? limit rest
              pure (.array (item :: items), rest)
      | '\x7b' :: rest =>
          match skipSpace rest with
          | '\x7d' :: rest => some (.object [], rest)
          | first => do
              let (key, rest) ← readKey? first
              let (value, rest) ← readValue? limit rest
              let (fields, rest) ← readFields? limit rest
              pure (.object ((key, value) :: fields), rest)
      | _ => readNumber? start

/-- Reads the items after the first one, each after a comma, and the closing bracket. -/
def readItems? : Nat → List Char → Option (List Json × List Char)
  | 0, _ => none
  | limit + 1, start =>
      match skipSpace start with
      | ']' :: rest => some ([], rest)
      | ',' :: rest => do
          let (item, rest) ← readValue? limit (skipSpace rest)
          let (items, rest) ← readItems? limit rest
          pure (item :: items, rest)
      | _ => none

/-- Reads the fields after the first one, each after a comma, and the closing brace. -/
def readFields? : Nat → List Char → Option (List (String × Json) × List Char)
  | 0, _ => none
  | limit + 1, start =>
      match skipSpace start with
      | '\x7d' :: rest => some ([], rest)
      | ',' :: rest => do
          let (key, rest) ← readKey? (skipSpace rest)
          let (value, rest) ← readValue? limit rest
          let (fields, rest) ← readFields? limit rest
          pure ((key, value) :: fields, rest)
      | _ => none

end

/-- The value that a text is, with blank space around it. -/
def read? (text : String) : Option Json := do
  let (value, rest) ← readValue? text.toList.length (skipSpace text.toList)
  if (skipSpace rest).isEmpty then some value else none

/-! ## Blank space -/

variable {rest : List Char}

/-- Blank space is skipped up to where it ends. -/
theorem skipSpace_append {space : List Char} (h : ∀ c ∈ space, isSpace c = true)
    (hrest : beginsWith isSpace rest = false) : skipSpace (space ++ rest) = rest :=
  dropWhile_run h hrest

/-- The white space of a layout is blank. -/
structure Layout.IsBlank (layout : Layout) : Prop where
  lineStart : ∀ depth, ∀ c ∈ layout.lineStart depth, isSpace c = true
  afterColon : ∀ c ∈ layout.afterColon, isSpace c = true

/-- No white space at all is blank. -/
theorem Layout.isBlank_compact : Layout.compact.IsBlank where
  lineStart := by simp [compact]
  afterColon := by simp [compact]

/-- Line feeds and spaces are blank. -/
theorem Layout.isBlank_indented : Layout.indented.IsBlank where
  lineStart := by
    intro depth c hc
    rcases List.mem_cons.mp hc with rfl | hc
    · rfl
    · rw [List.eq_of_mem_replicate hc]
      rfl
  afterColon := by
    intro c hc
    rw [List.mem_singleton.mp hc]
    rfl

/-! ## Texts -/

/-- A control character is read back from its code. -/
theorem scalar?_control {c : Char} (h : c.toNat < 0x20) :
    scalar? ['0', '0', Nat.digitChar (c.toNat / 16), Nat.digitChar (c.toNat % 16)] = some c := by
  have hhigh := digitValue?_digitChar 16 (c.toNat / 16) (by decide) (by omega)
  have hlow := digitValue?_digitChar 16 (c.toNat % 16) (by decide) (by omega)
  have hdigits : digits? 16 ['0', '0', Nat.digitChar (c.toNat / 16),
      Nat.digitChar (c.toNat % 16)] = some [0, 0, c.toNat / 16, c.toNat % 16] := by
    have hzero : digitValue? 16 '0' = some 0 := rfl
    simp [digits?, hzero, hhigh, hlow]
  have hvalue : valueOfDigits 16 [0, 0, c.toNat / 16, c.toNat % 16] = c.toNat := by
    simp only [valueOfDigits, List.foldl_cons, List.foldl_nil]
    omega
  have hvalid : c.toNat.isValidChar := c.valid
  rw [scalar?, hdigits]
  simp only [bind, Option.bind_some, hvalue, hvalid, if_true, Char.ofNat_toNat]

/-- A character is read back from the way it is written inside quotes. -/
theorem readText?_escape (c : Char) (rest : List Char) :
    readText? (escape c ++ rest) = prepend c (readText? rest) := by
  unfold escape
  split
  next => rfl
  next => rfl
  next => rfl
  next => rfl
  next => rfl
  next => rfl
  next => rfl
  next hquote hbackslash _ _ _ _ _ =>
    split
    next hcontrol =>
      have hread := scalar?_control hcontrol
      simp only [List.cons_append, List.nil_append]
      rw [readText?, hread]
      rfl
    next hcontrol =>
      rw [List.singleton_append, readText?, if_neg hcontrol]
      · exact fun heq ↦ hquote heq
      · exact fun _ _ _ _ _ heq ↦ absurd heq hbackslash
      · exact fun _ _ heq ↦ absurd heq hbackslash

/-- A text is read back from behind its opening quote. -/
theorem readText?_escapes (text rest : List Char) :
    readText? (text.flatMap escape ++ '"' :: rest) = some (text, rest) := by
  induction text with
  | nil => rfl
  | cons c text ih =>
      rw [List.flatMap_cons, List.append_assoc, readText?_escape, ih]
      rfl

/-! ## Values -/

/-- A number is read back from its decimal numeral. -/
theorem readNumber?_toDigits (number : Nat) (h : beginsWith Char.isDigit rest = false) :
    readNumber? (Nat.toDigits 10 number ++ rest) = some (.number number, rest) := by
  obtain ⟨values, hread, hvalue⟩ := digits?_toDigits 10 number (by decide) (by decide)
  have hdigit : ∀ c ∈ Nat.toDigits 10 number, c.isDigit = true := fun _ ↦ isDigit_of_mem_toDigits
  have hne : (Nat.toDigits 10 number).isEmpty = false := by
    rw [List.isEmpty_eq_false_iff]
    exact Nat.toDigits_ne_nil
  simp [readNumber?, takeWhile_run hdigit h, dropWhile_run hdigit h, hne, hread, hvalue]

/-- A key is read back, up to where the value begins. -/
theorem readKey?_quote (key : String) {space : List Char} (hspace : ∀ c ∈ space, isSpace c = true)
    (h : beginsWith isSpace rest = false) :
    readKey? (quote key ++ ':' :: (space ++ rest)) = some (key, rest) := by
  have hcolon : skipSpace (':' :: (space ++ rest)) = ':' :: (space ++ rest) := rfl
  simp only [quote, List.cons_append, List.append_assoc, List.nil_append]
  simp only [readKey?, bind, Option.bind_some, readText?_escapes, hcolon, pure,
    skipSpace_append hspace h, String.ofList_toList]

/-- A character that a written value begins with. -/
def beginsValue (c : Char) : Bool :=
  c.isDigit || c == '"' || c == 't' || c == 'f' || c == '[' || c == '\x7b'

/-- How a written value begins. -/
theorem exists_write_eq_cons (layout : Layout) (depth : Nat) (value : Json) :
    ∃ c more, write layout depth value = c :: more ∧ beginsValue c = true := by
  match value with
  | .text value => exact ⟨_, _, rfl, rfl⟩
  | .number value =>
      obtain ⟨c, more, hdigits⟩ := List.exists_cons_of_ne_nil
        (Nat.toDigits_ne_nil (b := 10) (n := value))
      have hc : c.isDigit = true := isDigit_of_mem_toDigits (hdigits ▸ List.mem_cons_self)
      exact ⟨c, more, by rw [write, hdigits], by simp [beginsValue, hc]⟩
  | .boolean true => exact ⟨_, _, rfl, rfl⟩
  | .boolean false => exact ⟨_, _, rfl, rfl⟩
  | .array [] => exact ⟨_, _, rfl, rfl⟩
  | .array (_ :: _) => exact ⟨_, _, rfl, rfl⟩
  | .object [] => exact ⟨_, _, rfl, rfl⟩
  | .object (_ :: _) => exact ⟨_, _, rfl, rfl⟩

/-- What no value begins with does not begin a written value. -/
theorem beginsWith_write {accepts : Char → Bool}
    (h : ∀ c, accepts c = true → beginsValue c = false) (layout : Layout) (depth : Nat)
    (value : Json) (rest : List Char) :
    beginsWith accepts (write layout depth value ++ rest) = false := by
  obtain ⟨c, more, hwrite, hc⟩ := exists_write_eq_cons layout depth value
  rw [hwrite, List.cons_append, beginsWith_cons]
  exact eq_false_of_disjoint h c hc

/-- No value begins with blank space. -/
theorem beginsValue_of_isSpace (c : Char) (h : isSpace c = true) : beginsValue c = false := by
  simp only [isSpace, Bool.or_eq_true, beq_iff_eq] at h
  rcases h with ((rfl | rfl) | rfl) | rfl
  · rfl
  · rfl
  · rfl
  · rfl

/-- Blank space is no digit. -/
theorem isDigit_of_isSpace (c : Char) (h : isSpace c = true) : c.isDigit = false := by
  simp only [isSpace, Bool.or_eq_true, beq_iff_eq] at h
  rcases h with ((rfl | rfl) | rfl) | rfl
  · rfl
  · rfl
  · rfl
  · rfl

/-- A step is left for every value that is to be read. -/
theorem exists_limit {layout : Layout} {depth limit : Nat} {value : Json}
    (h : (write layout depth value).length ≤ limit) : ∃ further, limit = further + 1 := by
  obtain ⟨c, more, hwrite, -⟩ := exists_write_eq_cons layout depth value
  rw [hwrite, List.length_cons] at h
  exact ⟨limit - 1, by omega⟩

/-- A number is read as a value. -/
theorem readValue?_toDigits (limit number : Nat) (h : beginsWith Char.isDigit rest = false) :
    readValue? (limit + 1) (Nat.toDigits 10 number ++ rest) = some (.number number, rest) := by
  obtain ⟨c, more, hdigits⟩ := List.exists_cons_of_ne_nil
    (Nat.toDigits_ne_nil (b := 10) (n := number))
  have hc : c.isDigit = true := isDigit_of_mem_toDigits (hdigits ▸ List.mem_cons_self)
  have hne : ∀ {mark : Char} {left right : List Char}, mark.isDigit = false →
      c :: left = mark :: right → False := fun hmark heq ↦
    ne_of_isDigit hc hmark (List.cons.inj heq).1
  have hread := readNumber?_toDigits number h
  rw [hdigits, List.cons_append] at hread ⊢
  rw [readValue?, hread]
  · exact fun _ ↦ hne rfl
  · exact fun _ ↦ hne rfl
  · exact fun _ ↦ hne rfl
  · exact fun _ ↦ hne rfl
  · exact fun _ ↦ hne rfl

variable {layout : Layout} (hblank : layout.IsBlank)
include hblank

/-- Blank space before a value is skipped. -/
theorem skipSpace_lineStart (depth : Nat) (value : Json) (rest : List Char) :
    skipSpace (layout.lineStart depth ++ (write layout depth value ++ rest)) =
      write layout depth value ++ rest :=
  skipSpace_append (hblank.lineStart depth)
    (beginsWith_write beginsValue_of_isSpace layout depth value rest)

/-- Blank space before a field is skipped. -/
theorem skipSpace_field (depth : Nat) (key : String) (rest : List Char) :
    skipSpace (layout.lineStart depth ++ (quote key ++ rest)) = quote key ++ rest :=
  skipSpace_append (hblank.lineStart depth) rfl

/-- The key of a field is read back, up to where its value begins. -/
theorem readKey?_field (key : String) (value : Json) (depth : Nat)
    (fields : List (String × Json)) (rest : List Char) :
    readKey? (quote key ++ ':' :: (layout.afterColon ++ (write layout (depth + 1) value ++
        (writeFields layout depth fields ++ rest)))) =
      some (key, write layout (depth + 1) value ++ (writeFields layout depth fields ++ rest)) :=
  readKey?_quote key hblank.afterColon
    (beginsWith_write beginsValue_of_isSpace layout (depth + 1) value _)

/-- What follows an item does not begin with a digit. -/
theorem beginsWith_writeItems (depth : Nat) (items : List Json) (rest : List Char) :
    beginsWith Char.isDigit (writeItems layout depth items ++ rest) = false := by
  cases items with
  | nil =>
      rw [writeItems, List.append_assoc]
      exact beginsWith_run_append (hblank.lineStart depth) isDigit_of_isSpace rfl
  | cons item items => rfl

/-- What follows a field does not begin with a digit. -/
theorem beginsWith_writeFields (depth : Nat) (fields : List (String × Json)) (rest : List Char) :
    beginsWith Char.isDigit (writeFields layout depth fields ++ rest) = false := by
  cases fields with
  | nil =>
      rw [writeFields, List.append_assoc]
      exact beginsWith_run_append (hblank.lineStart depth) isDigit_of_isSpace rfl
  | cons field fields => rfl

mutual

/-- A value is read back from its text, where no digit follows it. -/
theorem readValue?_write (value : Json) (depth limit : Nat) {rest : List Char}
    (hlimit : (write layout depth value).length ≤ limit)
    (hrest : beginsWith Char.isDigit rest = false) :
    readValue? limit (write layout depth value ++ rest) = some (value, rest) := by
  obtain ⟨limit, rfl⟩ := exists_limit hlimit
  match value with
  | .text value =>
      simp only [write, quote, List.cons_append, List.append_assoc, List.nil_append]
      rw [readValue?, readText?_escapes]
      simp only [Option.map_some, String.ofList_toList]
  | .number value => exact readValue?_toDigits limit value hrest
  | .boolean true => rfl
  | .boolean false => rfl
  | .array [] => rfl
  | .array (item :: items) =>
      rw [write] at hlimit ⊢
      simp only [List.length_cons, List.length_append] at hlimit
      have hitem := readValue?_write item (depth + 1) limit (by omega)
        (beginsWith_writeItems hblank depth items rest)
      have hitems := readItems?_writeItems items depth limit rest (by omega)
      simp only [List.cons_append, List.append_assoc]
      rw [readValue?, skipSpace_lineStart hblank]
      split
      next heq =>
        obtain ⟨c, more, hwrite, hc⟩ := exists_write_eq_cons layout (depth + 1) item
        rw [hwrite, List.cons_append, List.cons.injEq] at heq
        rw [heq.1] at hc
        cases hc
      next =>
        rw [hitem]
        simp only [bind, Option.bind_some, hitems]
        rfl
  | .object [] => rfl
  | .object ((key, value) :: fields) =>
      rw [write] at hlimit ⊢
      simp only [List.length_cons, List.length_append] at hlimit
      have hkey := readKey?_field hblank key value depth fields rest
      have hvalue := readValue?_write value (depth + 1) limit (by omega)
        (beginsWith_writeFields hblank depth fields rest)
      have hfields := readFields?_writeFields fields depth limit rest (by omega)
      simp only [List.cons_append, List.append_assoc]
      rw [readValue?, skipSpace_field hblank]
      split
      next heq => cases heq
      next =>
        rw [hkey]
        simp only [bind, Option.bind_some, hvalue, hfields]
        rfl

/-- Further items are read back from their text. -/
theorem readItems?_writeItems (items : List Json) (depth limit : Nat) (rest : List Char)
    (hlimit : (writeItems layout depth items).length ≤ limit) :
    readItems? limit (writeItems layout depth items ++ rest) = some (items, rest) := by
  match items with
  | [] =>
      obtain ⟨limit, rfl⟩ : ∃ further, limit = further + 1 := by
        rw [writeItems, List.length_append, List.length_singleton] at hlimit
        exact ⟨limit - 1, by omega⟩
      rw [writeItems, List.append_assoc, readItems?,
        skipSpace_append (hblank.lineStart depth) rfl]
      rfl
  | item :: items =>
      rw [writeItems] at hlimit ⊢
      simp only [List.length_cons, List.length_append] at hlimit
      obtain ⟨limit, rfl⟩ : ∃ further, limit = further + 1 := ⟨limit - 1, by omega⟩
      have hitem := readValue?_write item (depth + 1) limit (by omega)
        (beginsWith_writeItems hblank depth items rest)
      have hitems := readItems?_writeItems items depth limit rest (by omega)
      have hcomma : ∀ following, skipSpace (',' :: following) = ',' :: following := fun _ ↦ rfl
      simp only [List.cons_append, List.append_assoc]
      rw [readItems?, hcomma]
      simp only [skipSpace_lineStart hblank, hitem, hitems, bind, Option.bind_some]
      rfl

/-- Further fields are read back from their text. -/
theorem readFields?_writeFields (fields : List (String × Json)) (depth limit : Nat)
    (rest : List Char) (hlimit : (writeFields layout depth fields).length ≤ limit) :
    readFields? limit (writeFields layout depth fields ++ rest) = some (fields, rest) := by
  match fields with
  | [] =>
      obtain ⟨limit, rfl⟩ : ∃ further, limit = further + 1 := by
        rw [writeFields, List.length_append, List.length_singleton] at hlimit
        exact ⟨limit - 1, by omega⟩
      rw [writeFields, List.append_assoc, readFields?,
        skipSpace_append (hblank.lineStart depth) rfl]
      rfl
  | (key, value) :: fields =>
      rw [writeFields] at hlimit ⊢
      simp only [List.length_cons, List.length_append] at hlimit
      obtain ⟨limit, rfl⟩ : ∃ further, limit = further + 1 := ⟨limit - 1, by omega⟩
      have hkey := readKey?_field hblank key value depth fields rest
      have hvalue := readValue?_write value (depth + 1) limit (by omega)
        (beginsWith_writeFields hblank depth fields rest)
      have hfields := readFields?_writeFields fields depth limit rest (by omega)
      have hcomma : ∀ following, skipSpace (',' :: following) = ',' :: following := fun _ ↦ rfl
      simp only [List.cons_append, List.append_assoc]
      rw [readFields?, hcomma]
      simp only [skipSpace_field hblank, hkey, hvalue, hfields, bind, Option.bind_some]
      rfl

end

omit hblank

/-- A value is read back from its text, in any layout whose white space is blank. -/
theorem read?_render (layout : Layout) (hblank : layout.IsBlank) (value : Json) :
    read? (value.render layout) = some value := by
  have hskip : skipSpace ([] ++ (write layout 0 value ++ [])) = write layout 0 value ++ [] :=
    skipSpace_append (List.forall_mem_nil _)
      (beginsWith_write beginsValue_of_isSpace layout 0 value [])
  have hread := readValue?_write hblank value 0 (write layout 0 value).length (Nat.le_refl _)
    (show beginsWith Char.isDigit [] = false from rfl)
  rw [List.nil_append, List.append_nil] at hskip
  rw [List.append_nil] at hread
  rw [read?, render, String.toList_ofList, hskip, hread]
  rfl

end ModelQuery.Json

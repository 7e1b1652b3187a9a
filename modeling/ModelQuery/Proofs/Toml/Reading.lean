import ModelQuery.Proofs.Toml.Quoting
import ModelQuery.Proofs.Toml.Words
import ModelQuery.Toml.Document

/-!
# Documents of plain assignments

A quoted text, an array of such texts on one line or on several, a truth value and a number are read
as what they are, whatever follows the end of their line. `PlainLine` is an assignment of such a
value to a key without quotes, on a line of its own. The main result, `read?_lines`, is that a
document of plain lines is read as the assignments that the lines make, in their order; if no two of
the lines have one key (`read?_entries`), these are the entries of the document.
-/

namespace ModelQuery.Toml

open Text

variable {rest : List Char}

/-! ## Filler -/

/-- A character that blank space between values, line feeds or comments begin with. -/
def isFiller (c : Char) : Bool :=
  isSpace c || c == '\n' || c == '#'

/-- Where none of it begins, no filler is skipped. -/
theorem skipLines_eq_self {text : List Char} (h : beginsWith isFiller text = false) :
    skipLines text = text := by
  cases text with
  | nil => rfl
  | cons c text =>
      simp only [beginsWith_cons, isFiller, Bool.or_eq_false_iff, beq_eq_false_iff_ne] at h
      obtain ⟨⟨hspace, hfeed⟩, hmark⟩ := h
      simp [skipLines, skipLinesFrom, hspace, hfeed, hmark]

/-- Where none of it begins, no blank space is skipped. -/
theorem skipSpaces_eq_self {text : List Char} (h : beginsWith isSpace text = false) :
    skipSpaces text = text := by
  cases text with
  | nil => rfl
  | cons c text =>
      rw [beginsWith_cons] at h
      simp [skipSpaces, h]

/-! ## Values -/

/-- How a quoted text begins. -/
theorem beginsWith_quote (accepts : Char → Bool) (hdouble : accepts '"' = false)
    (hsingle : accepts '\'' = false) (text rest : List Char) :
    beginsWith accepts (quote text ++ rest) = false := by
  obtain ⟨mark, more, hquote, hmark⟩ := exists_quote_eq_cons text
  rw [hquote, List.cons_append, beginsWith_cons]
  rcases hmark with rfl | rfl
  · exact hdouble
  · exact hsingle

/-- A quoted text is read as a value, with any number of arrays open. -/
theorem readValue?_quote (levels : Nat) (text : String) (h : beginsWith isMark rest = false) :
    readValue? levels (quote text.toList ++ rest) = some (.text text, rest) := by
  have hread := readQuoted?_quote text.toList h
  obtain ⟨mark, more, hquote, hmark⟩ := exists_quote_eq_cons text.toList
  rw [hquote, List.cons_append] at hread ⊢
  have hsimple : readSimple? (mark :: (more ++ rest)) = some (.text text, rest) := by
    rcases hmark with rfl | rfl
    · simp only [readSimple?, hread, Option.map_some, String.ofList_toList]
    · simp only [readSimple?, hread, Option.map_some, String.ofList_toList]
  rcases hmark with rfl | rfl
  · cases levels with
    | zero => exact hsimple
    | succ levels => exact hsimple
  · cases levels with
    | zero => exact hsimple
    | succ levels => exact hsimple

/-- A word is read as a value unless it begins like a value of another kind. -/
theorem readValue?_word (levels : Nat) {c : Char} {word : List Char}
    (h : c ≠ '"' ∧ c ≠ '\'' ∧ c ≠ '[' ∧ c ≠ '\x7b') :
    readValue? levels (c :: word) = Scalar.read? (c :: word) := by
  obtain ⟨hdouble, hsingle, hbracket, hbrace⟩ := h
  have hsimple : readSimple? (c :: word) = Scalar.read? (c :: word) := by
    rw [readSimple?]
    · exact fun _ heq ↦ hdouble (List.cons.inj heq).1
    · exact fun _ heq ↦ hsingle (List.cons.inj heq).1
  cases levels with
  | zero =>
      rw [readValue?, hsimple]
      · exact fun _ heq ↦ hbracket (List.cons.inj heq).1
      · exact fun _ heq ↦ hbrace (List.cons.inj heq).1
  | succ levels =>
      rw [readValue?, hsimple]
      · exact fun _ heq ↦ hbracket (List.cons.inj heq).1
      · exact fun _ heq ↦ hbrace (List.cons.inj heq).1

/-- The last element of an array is read. -/
theorem readElements?_last (levels limit : Nat) (text : String) {following : List Char}
    (h : beginsWith isMark rest = false) (hrest : skipLines rest = ']' :: following) :
    readElements? (readValue? levels) (limit + 1) (quote text.toList ++ rest) =
      some ([.text text], following) := by
  have hskip := skipLines_eq_self
    (beginsWith_quote isFiller rfl rfl text.toList rest)
  rw [readElements?, hskip]
  split
  next heq =>
    have hbracket := beginsWith_quote (· == ']') rfl rfl text.toList rest
    rw [heq] at hbracket
    cases hbracket
  next =>
    rw [readValue?_quote levels text h]
    simp only [bind, Option.bind_some, hrest]
    rfl

/-- An element of an array that a comma follows is read before the elements behind the comma. -/
theorem readElements?_comma (levels limit : Nat) (text : String) {items : List Item}
    {following : List Char}
    (hrest : readElements? (readValue? levels) limit rest = some (items, following)) :
    readElements? (readValue? levels) (limit + 1) (quote text.toList ++ ',' :: rest) =
      some (.text text :: items, following) := by
  have hskip := skipLines_eq_self
    (beginsWith_quote isFiller rfl rfl text.toList (',' :: rest))
  rw [readElements?, hskip]
  split
  next heq =>
    have hbracket := beginsWith_quote (· == ']') rfl rfl text.toList (',' :: rest)
    rw [heq] at hbracket
    cases hbracket
  next =>
    have hcomma : skipLines (',' :: rest) = ',' :: rest := rfl
    rw [readValue?_quote levels text (show beginsWith isMark (',' :: rest) = false from rfl)]
    simp only [bind, Option.bind_some, hcomma, hrest]
    rfl

/-- A line feed and an indentation before the elements of an array are skipped. -/
theorem readElements?_indented (value : List Char → Option (Item × List Char)) (limit : Nat)
    (text : List Char) :
    readElements? value limit ('\n' :: (List.replicate 4 ' ' ++ text)) =
      readElements? value limit text := by
  cases limit with
  | zero => rfl
  | succ limit =>
      have hskip : skipLines ('\n' :: (List.replicate 4 ' ' ++ text)) = skipLines text := rfl
      simp only [readElements?, hskip]

/-- A quoted text as an element of an array on a line of its own. -/
def elementLine (text : String) : List Char :=
  List.replicate 4 ' ' ++ quote text.toList ++ [',', '\n']

/-- The elements of an array are read from their lines. -/
theorem readElements?_lines (levels : Nat) {limit : Nat} (texts : List String)
    (h : texts.length < limit) :
    readElements? (readValue? levels) limit ('\n' :: (texts.flatMap elementLine ++ ']' :: rest)) =
      some (texts.map .text, rest) := by
  induction texts generalizing limit with
  | nil =>
      cases limit with
      | zero => cases h
      | succ limit => rfl
  | cons text texts ih =>
      cases limit with
      | zero => cases h
      | succ limit =>
          have hfurther := ih (Nat.lt_of_succ_lt_succ h)
          have hread := readElements?_comma levels limit text hfurther
          simp only [List.flatMap_cons, elementLine, List.append_assoc, List.cons_append,
            List.nil_append]
          rw [readElements?_indented]
          exact hread

/-- There are no more lines of elements than characters. -/
theorem length_le_length_elementLines (texts : List String) :
    texts.length ≤ (texts.flatMap elementLine).length := by
  induction texts with
  | nil => exact Nat.le_refl 0
  | cons text texts ih =>
      simp only [List.flatMap_cons, elementLine, List.length_append, List.length_cons]
      omega

/-- An array of quoted texts on lines of their own is read as a value. -/
theorem readValue?_elementLines (levels : Nat) (texts : List String) :
    readValue? (levels + 1) ('[' :: '\n' :: (texts.flatMap elementLine ++ ']' :: rest)) =
      some (.array (texts.map .text), rest) := by
  have hlength : texts.length <
      ('\n' :: (texts.flatMap elementLine ++ ']' :: rest)).length + 1 := by
    have hle := length_le_length_elementLines texts
    simp only [List.length_cons, List.length_append]
    omega
  rw [readValue?, readElements?_lines levels texts hlength]
  rfl

/-- An array of one quoted text on one line is read as a value. -/
theorem readValue?_single (levels : Nat) (text : String) :
    readValue? (levels + 1) ('[' :: (quote text.toList ++ ']' :: rest)) =
      some (.array [.text text], rest) := by
  have hread := readElements?_last levels (quote text.toList ++ ']' :: rest).length text
    (show beginsWith isMark (']' :: rest) = false from rfl) rfl
  rw [readValue?, hread]
  rfl

/-! ## Lines -/

/-- An assignment that may stand on a line of its own: a key without quotes, and a value that is
read as an item before a line feed. -/
structure PlainLine where
  key : String
  value : List Char
  item : Item
  key_ne_nil : key.toList ≠ []
  isKeyCharacter_key : ∀ c ∈ key.toList, isKeyCharacter c = true
  beginsWith_value : beginsWith isSpace value = false
  notMem_value : '\r' ∉ value
  readValue?_value : ∀ rest,
    readValue? maxNesting (value ++ '\n' :: rest) = some (item, '\n' :: rest)

namespace PlainLine

/-- The line as it is written. -/
def written (line : PlainLine) : List Char :=
  line.key.toList ++ [' ', '=', ' '] ++ line.value ++ ['\n']

/-- The assignment that the line makes. -/
def assignment (line : PlainLine) : Assignment :=
  ⟨⟨[], line.key⟩, line.item⟩

end PlainLine

/-- A character that no key has is not the one that a key has. -/
theorem ne_of_isKeyCharacter {c mark : Char} (h : isKeyCharacter c = true)
    (hmark : isKeyCharacter mark = false) : c ≠ mark := by
  rintro rfl
  rw [h] at hmark
  cases hmark

/-- No filler begins with a character of a key. -/
theorem isFiller_of_isKeyCharacter {c : Char} (h : isKeyCharacter c = true) :
    isFiller c = false := by
  have hspace : c ≠ ' ' := ne_of_isKeyCharacter h rfl
  have htab : c ≠ '\t' := ne_of_isKeyCharacter h rfl
  have hfeed : c ≠ '\n' := ne_of_isKeyCharacter h rfl
  have hmark : c ≠ '#' := ne_of_isKeyCharacter h rfl
  simp [isFiller, isSpace, hspace, htab, hfeed, hmark]

/-- A key without quotes is read up to the blank space and the equals sign behind it. -/
theorem readKey?_key {key : List Char} (hne : key ≠ [])
    (hkey : ∀ c ∈ key, isKeyCharacter c = true) (rest : List Char) :
    readKey? (key ++ ' ' :: '=' :: rest) = some (⟨[], String.ofList key⟩, '=' :: rest) := by
  obtain ⟨c, more, rfl⟩ := List.exists_cons_of_ne_nil hne
  have hc : isKeyCharacter c = true := hkey c List.mem_cons_self
  have hfiller := isFiller_of_isKeyCharacter hc
  simp only [isFiller, Bool.or_eq_false_iff] at hfiller
  have hskip : skipSpaces (c :: more ++ ' ' :: '=' :: rest) = c :: more ++ ' ' :: '=' :: rest :=
    skipSpaces_eq_self hfiller.1.1
  have hquoted : readQuotedLine? (c :: more ++ ' ' :: '=' :: rest) = none := by
    rw [List.cons_append, readQuotedLine?]
    · exact fun _ heq ↦ ne_of_isKeyCharacter hc rfl (List.cons.inj heq).1
    · exact fun _ heq ↦ ne_of_isKeyCharacter hc rfl (List.cons.inj heq).1
  have hstop : beginsWith isKeyCharacter (' ' :: '=' :: rest) = false := rfl
  have hpart : readKeyPart? (c :: more ++ ' ' :: '=' :: rest) =
      some (String.ofList (c :: more), ' ' :: '=' :: rest) := by
    simp only [readKeyPart?, hquoted, takeWhile_run hkey hstop, dropWhile_run hkey hstop]
    rfl
  have hparts : readKeyParts? maxNesting (c :: more ++ ' ' :: '=' :: rest) =
      some ([String.ofList (c :: more)], '=' :: rest) := by
    have hbehind : skipSpaces (' ' :: '=' :: rest) = '=' :: rest := rfl
    rw [maxNesting, readKeyParts?, hskip, hpart]
    simp only [bind, Option.bind_some, hbehind]
    rfl
  rw [readKey?, hparts]
  rfl

namespace PlainLine

variable (line : PlainLine)

/-- How a line begins. -/
theorem exists_written_eq_cons :
    ∃ c more, isKeyCharacter c = true ∧ line.written = c :: more := by
  obtain ⟨c, more, hkey⟩ := List.exists_cons_of_ne_nil line.key_ne_nil
  have hc := line.isKeyCharacter_key c (by simp [hkey])
  exact ⟨c, more ++ [' ', '=', ' '] ++ line.value ++ ['\n'], hc, by simp [written, hkey]⟩

/-- The assignment of a line is read up to the end of the line. -/
theorem readAssignment?_written (rest : List Char) :
    readAssignment? (readValue? maxNesting) (line.written ++ rest) =
      some (line.assignment, '\n' :: rest) := by
  have htext : line.written ++ rest =
      line.key.toList ++ ' ' :: '=' :: ' ' :: (line.value ++ '\n' :: rest) := by
    simp [written]
  have hvalue : skipSpaces (' ' :: (line.value ++ '\n' :: rest)) =
      line.value ++ '\n' :: rest := by
    have hspace : skipSpaces (' ' :: (line.value ++ '\n' :: rest)) =
        skipSpaces (line.value ++ '\n' :: rest) := rfl
    rw [hspace]
    apply skipSpaces_eq_self
    cases hempty : line.value with
    | nil => rfl
    | cons c more =>
        have hbegins := line.beginsWith_value
        rw [hempty] at hbegins
        exact hbegins
  rw [htext, readAssignment?, readKey?_key line.key_ne_nil line.isKeyCharacter_key]
  simp only [bind, Option.bind_some, hvalue, line.readValue?_value, String.ofList_toList]
  rfl

/-- A line is read as its assignment. -/
theorem readLine?_written (rest : List Char) :
    readLine? (line.written ++ rest) = some (.assignment line.assignment, rest) := by
  have hread := line.readAssignment?_written rest
  obtain ⟨c, more, hc, hwritten⟩ := line.exists_written_eq_cons
  have hbracket : c ≠ '[' := ne_of_isKeyCharacter hc rfl
  rw [hwritten, List.cons_append] at hread ⊢
  have hend : endLine? ('\n' :: rest) = some rest := rfl
  rw [readLine?]
  · simp only [hread, bind, Option.bind_some, hend]
    rfl
  · exact fun _ heq ↦ hbracket (List.cons.inj heq).1

end PlainLine

/-! ## Documents -/

variable (lines : List PlainLine)

/-- The lines of a document are read one after the other. -/
theorem readLines?_lines {limit : Nat} (h : lines.length < limit) :
    readLines? limit (lines.flatMap PlainLine.written) =
      some (lines.map fun line ↦ .assignment line.assignment) := by
  induction lines generalizing limit with
  | nil =>
      cases limit with
      | zero => cases h
      | succ limit => rfl
  | cons line lines ih =>
      cases limit with
      | zero => cases h
      | succ limit =>
          have hfurther := ih (Nat.lt_of_succ_lt_succ h)
          have hread := line.readLine?_written (lines.flatMap PlainLine.written)
          obtain ⟨c, more, hc, hwritten⟩ := line.exists_written_eq_cons
          rw [List.flatMap_cons, readLines?]
          rw [hwritten, List.cons_append] at hread ⊢
          have hbegins :
              beginsWith isFiller (c :: (more ++ lines.flatMap PlainLine.written)) = false :=
            isFiller_of_isKeyCharacter hc
          rw [skipLines_eq_self hbegins]
          simp only [hread, hfurther, bind, Option.bind_some]
          rfl

/-- Without headers, all lines stand before the first section. -/
theorem splitSections_lines :
    splitSections (lines.map fun line ↦ .assignment line.assignment) =
      (lines.map PlainLine.assignment, []) := by
  induction lines with
  | nil => rfl
  | cons line lines ih => simp only [List.map_cons, splitSections, ih]

/-- A text without carriage returns has its line ends joined already. -/
theorem joinLineEnds?_eq_self {text : List Char} (h : '\r' ∉ text) :
    joinLineEnds? text = some text := by
  induction text with
  | nil => rfl
  | cons c text ih =>
      rw [List.mem_cons, not_or] at h
      have hc : c ≠ '\r' := Ne.symm h.1
      rw [joinLineEnds?, if_neg hc, ih h.2]
      · rfl
      · exact fun _ heq ↦ absurd heq hc

/-- No carriage return stands in a line. -/
theorem PlainLine.notMem_written (line : PlainLine) : '\r' ∉ line.written := by
  intro h
  simp only [written, List.mem_append] at h
  rcases h with ((h | h) | h) | h
  · have hne : '\r' ≠ '\r' := ne_of_isKeyCharacter (line.isKeyCharacter_key _ h) rfl
    exact hne rfl
  · revert h
    decide
  · exact line.notMem_value h
  · revert h
    decide

/-- No byte order mark stands before lines. -/
theorem dropByteOrderMark_lines :
    dropByteOrderMark (lines.flatMap PlainLine.written) = lines.flatMap PlainLine.written := by
  cases lines with
  | nil => rfl
  | cons line lines =>
      obtain ⟨c, more, hc, hwritten⟩ := line.exists_written_eq_cons
      rw [List.flatMap_cons, hwritten, List.cons_append, dropByteOrderMark]
      exact fun _ heq ↦ ne_of_isKeyCharacter hc rfl (List.cons.inj heq).1

/-- There are no more lines than characters. -/
theorem length_le_length_lines : lines.length ≤ (lines.flatMap PlainLine.written).length := by
  induction lines with
  | nil => exact Nat.le_refl 0
  | cons line lines ih =>
      obtain ⟨c, more, -, hwritten⟩ := line.exists_written_eq_cons
      simp only [List.flatMap_cons, hwritten, List.length_append, List.length_cons]
      omega

/-- A document of plain lines holds what their assignments enter, one after the other. -/
theorem read?_lines :
    read? (String.ofList (lines.flatMap PlainLine.written)) =
      Entries.assignAll [] (lines.map PlainLine.assignment) := by
  have hreturn : '\r' ∉ lines.flatMap PlainLine.written := by
    intro h
    obtain ⟨line, -, hmem⟩ := List.mem_flatMap.mp h
    exact line.notMem_written hmem
  have hlength : lines.length < (lines.flatMap PlainLine.written).length + 1 :=
    Nat.lt_succ_of_le (length_le_length_lines lines)
  rw [read?, String.toList_ofList, dropByteOrderMark_lines, joinLineEnds?_eq_self hreturn]
  simp only [bind, Option.bind_some, readLines?_lines lines hlength, build?,
    splitSections_lines]
  cases Entries.assignAll [] (lines.map PlainLine.assignment) with
  | none => rfl
  | some entries => rfl

/-! ## Entries -/

namespace Entries

/-- A key is not found if no entry has it, and only then. -/
theorem find?_eq_none_iff {entries : Entries} {key : String} :
    entries.find? key = none ↔ key ∉ entries.map (·.1) := by
  induction entries with
  | nil => simp [find?]
  | cons entry entries ih =>
      by_cases heq : entry.1 = key
      · simp [find?, heq]
      · simp [find?, heq, Ne.symm heq, ih]

/-- Of entries that are made of keys, the one that is found is made of the key that is looked
for. -/
theorem find?_map {κ : Type} [DecidableEq κ] {name : κ → String} (hname : Function.Injective name)
    (item : κ → Item) (keys : List κ) (key : κ) :
    Entries.find? (name key) (keys.map fun other ↦ (name other, item other)) =
      if key ∈ keys then some (item key) else none := by
  induction keys with
  | nil => rfl
  | cons other keys ih =>
      by_cases heq : other = key
      · simp [find?, heq]
      · have hne : name other ≠ name key := fun hsame ↦ heq (hname hsame)
        simp [find?, hne, Ne.symm heq, ih]

/-- The assignment of a line is entered behind what is there if its key is new. -/
theorem assign_line {entries : Entries} {line : PlainLine} (h : line.key ∉ entries.map (·.1)) :
    entries.assign line.assignment = some (entries ++ [(line.key, line.item)]) := by
  rw [assign, PlainLine.assignment, assignBelow, add, find?_eq_none_iff.mpr h]

/-- The assignment of a line is refused if its key is there. -/
theorem assign_line_eq_none {entries : Entries} {line : PlainLine}
    (h : line.key ∈ entries.map (·.1)) : entries.assign line.assignment = none := by
  rw [assign, PlainLine.assignment, assignBelow, add]
  cases hfound : entries.find? line.key with
  | none => exact absurd h (find?_eq_none_iff.mp hfound)
  | some item => rfl

/-- Plain lines of keys that are all different, and that are new, are entered behind what is
there. -/
theorem assignAll_lines (entries : Entries)
    (h : (entries.map (·.1) ++ lines.map PlainLine.key).Nodup) :
    entries.assignAll (lines.map PlainLine.assignment) =
      some (entries ++ lines.map fun line ↦ (line.key, line.item)) := by
  induction lines generalizing entries with
  | nil => simp [assignAll]
  | cons line lines ih =>
      have hfree : line.key ∉ entries.map (·.1) := fun hmem ↦
        (List.nodup_append.mp h).2.2 _ hmem _ List.mem_cons_self rfl
      have hnext :
          assignAll (entries ++ [(line.key, line.item)]) (lines.map PlainLine.assignment) =
            some (entries ++ [(line.key, line.item)] ++
              lines.map fun line ↦ (line.key, line.item)) :=
        ih _ (by simpa using h)
      rw [List.map_cons, assignAll, List.foldlM_cons, assign_line hfree]
      simp only [bind, Option.bind_some]
      rw [← assignAll, hnext]
      simp

/-- Lines two of which have one key are refused. -/
theorem assignAll_lines_eq_none {entries : Entries} (hentries : (entries.map (·.1)).Nodup)
    (h : ¬ (entries.map (·.1) ++ lines.map PlainLine.key).Nodup) :
    entries.assignAll (lines.map PlainLine.assignment) = none := by
  -- the first line whose key is there stops it
  induction lines generalizing entries with
  | nil => exact absurd (by simpa using hentries) h
  | cons line lines ih =>
      rw [List.map_cons, assignAll, List.foldlM_cons]
      by_cases hkey : line.key ∈ entries.map (·.1)
      · rw [assign_line_eq_none hkey]
        rfl
      · have hnext : ((entries ++ [(line.key, line.item)]).map (·.1)).Nodup := by
          rw [List.map_append, List.map_singleton, List.nodup_append]
          refine ⟨hentries, by simp, fun key hmem other hother heq ↦ hkey ?_⟩
          have hsame : key = line.key := heq.trans (List.mem_singleton.mp hother)
          exact hsame ▸ hmem
        rw [assign_line hkey]
        exact ih hnext (by simpa using h)

end Entries

/-- A document of plain lines with different keys is read as their entries. -/
theorem read?_entries (h : (lines.map PlainLine.key).Nodup) :
    read? (String.ofList (lines.flatMap PlainLine.written)) =
      some (lines.map fun line ↦ (line.key, line.item)) := by
  rw [read?_lines, Entries.assignAll_lines lines [] h, List.nil_append]

/-- A document of plain lines two of which have one key is malformed. -/
theorem read?_eq_none_of_lines (h : ¬ (lines.map PlainLine.key).Nodup) :
    read? (String.ofList (lines.flatMap PlainLine.written)) = none := by
  have hempty : (([] : Entries).map (·.1)).Nodup := List.nodup_nil
  rw [read?_lines, Entries.assignAll_lines_eq_none lines hempty h]

end ModelQuery.Toml

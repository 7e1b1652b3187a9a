/-!
# Byte offsets and columns

Positions in a text are byte offsets of its UTF-8 form. `byteLength` measures a text in bytes, and
`charactersBefore` counts the characters that end at or before an offset, from which a column is
counted. `charactersBefore_byteLength` says that the two agree at a character boundary, and
`utf8ByteSize_ofList` that bytes are counted as the core library does it.

The program keeps offsets and columns in words. No text is long enough for its offsets to come near
the last word, so that they are plain numbers here. An offset that is not one of a text may be any
word, and what is computed from it is the next word (`nextWord`).
-/

namespace ModelQuery.Text

/-- The number of bytes of the text's UTF-8 form. -/
def byteLength : List Char → Nat
  | [] => 0
  | c :: rest => c.utf8Size + byteLength rest

/-- The number of characters that end at or before the byte offset. -/
def charactersBefore : Nat → List Char → Nat
  | _, [] => 0
  | offset, c :: rest =>
      if c.utf8Size ≤ offset then charactersBefore (offset - c.utf8Size) rest + 1 else 0

/-- The number of words. A word has 64 bits. -/
def wordCount : Nat := 0x10000000000000000

/-- The word after this one. Sums are not checked for overflow: after the last word comes zero. -/
def nextWord (word : Nat) : Nat := (word + 1) % wordCount

/-- The next word is one more where that is a word. -/
theorem nextWord_of_lt {word : Nat} (h : word + 1 < wordCount) : nextWord word = word + 1 :=
  Nat.mod_eq_of_lt h

/-- The byte length of a concatenation is the sum of the byte lengths. -/
theorem byteLength_append (left right : List Char) :
    byteLength (left ++ right) = byteLength left + byteLength right := by
  induction left with
  | nil => simp [byteLength]
  | cons c rest ih => simp [byteLength, ih, Nat.add_assoc]

/-- A text has no fewer bytes than characters. -/
theorem length_le_byteLength (text : List Char) : text.length ≤ byteLength text := by
  induction text with
  | nil => exact Nat.le_refl 0
  | cons c text ih =>
      have := c.utf8Size_pos
      rw [List.length_cons, byteLength]
      omega

/-- The byte length of a text is the size of the string that has its characters. -/
theorem utf8ByteSize_ofList (text : List Char) :
    (String.ofList text).utf8ByteSize = byteLength text := by
  induction text with
  | nil => rfl
  | cons c rest ih =>
      rw [String.ofList_cons, String.utf8ByteSize_append, String.utf8ByteSize_singleton, ih,
        byteLength]

/-- At the offset where `right` begins, the characters before it are those of `left`. -/
theorem charactersBefore_byteLength (left right : List Char) :
    charactersBefore (byteLength left) (left ++ right) = left.length := by
  induction left with
  | nil =>
      cases right with
      | nil => rfl
      | cons c rest =>
          have := c.utf8Size_pos
          simp [byteLength, charactersBefore, Nat.not_le_of_lt this]
  | cons c rest ih => simp [byteLength, charactersBefore, ih]

end ModelQuery.Text

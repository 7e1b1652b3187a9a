import ModelQuery.Proofs.Filter.Outcomes

/-!
# Columns of refusals

A refusal says in two ways where it is: by an offset in bytes and by a column. For a text that does
not follow the grammar the column counts characters, and for one that nests too deeply it counts
bytes. `column_of_refusal` says so of every refusal, and that the two ways of counting agree
exactly where no character before the refusal is longer than one byte.
-/

namespace ModelQuery

namespace Text

/-- A text has as many bytes as characters if each of them is one byte long, and only then. -/
theorem byteLength_eq_length_iff (text : List Char) :
    byteLength text = text.length ↔ ∀ c ∈ text, c.utf8Size = 1 := by
  induction text with
  | nil => simp [byteLength]
  | cons c text ih =>
      have hpos := c.utf8Size_pos
      have hle := length_le_byteLength text
      rw [List.forall_mem_cons, ← ih, byteLength, List.length_cons]
      omega

end Text

namespace Expression

/-- Every refusal is at the beginning of a character of the normalized text. Its column is one more
than the bytes before it if the text nests too deeply, and one more than the characters before it
otherwise; so it counts characters unless it is one of a text that nests too deeply and has a
longer character before. -/
theorem column_of_refusal (given : String) (error : ExpressionError)
    (h : parse given = .error (.expression error)) :
    ∃ before rest, (normalize given).toList = before ++ rest ∧
      error.offset = Text.byteLength before ∧
      error.column = (if error.fault = .tooDeep then error.offset else before.length) + 1 ∧
      (error.column = Text.charactersBefore error.offset (normalize given).toList + 1 ↔
        error.fault ≠ .tooDeep ∨ ∀ c ∈ before, c.utf8Size = 1) := by
  have hending := Filter.ending_of_error h
  generalize herror : (Except.error (.expression error) : Except Error Filter) = result at hending
  cases hending with
  | filter | unknownAttribute => cases herror
  | tooDeep before rest htext =>
      cases herror
      refine ⟨before, _, htext, rfl, rfl, ?_⟩
      rw [htext, Text.charactersBefore_byteLength, Nat.add_right_cancel_iff,
        Text.byteLength_eq_length_iff]
      simp
  | expected constructs shown before rest _ _ htext =>
      cases herror
      refine ⟨before, rest, htext, rfl, rfl, ?_⟩
      rw [htext, Text.charactersBefore_byteLength]
      simp

/-- A group whose first member has a value with a letter of two bytes, and whose second one opens as
many further groups as a whole text may. -/
def wideThenDeep : List Char :=
  "or(model_name='é',".toList ++ (List.replicate 128 "or(".toList).flatten ++
    "condition=0".toList ++ List.replicate 129 ')'

/-- There is nothing to normalize in that text. -/
theorem toList_normalize_wideThenDeep :
    (normalize (String.ofList wideThenDeep)).toList = wideThenDeep := by
  rw [normalize, String.toList_ofList, String.toList_ofList]
  decide +kernel

/-- The parenthesis of the last of these groups is refused. -/
theorem parse_wideThenDeep :
    parse (String.ofList wideThenDeep) =
      .error (.expression ⟨String.ofList wideThenDeep, .tooDeep, 1, 403, 402⟩) := by
  have hscan : Depth.excess? wideThenDeep = some 402 := by decide +kernel
  rw [← toList_normalize_wideThenDeep] at hscan
  exact parse_of_excess? hscan

/-- Before that parenthesis stand 402 bytes, two of which are one letter. -/
theorem charactersBefore_wideThenDeep :
    Text.charactersBefore 402 (normalize (String.ofList wideThenDeep)).toList = 401 := by
  rw [toList_normalize_wideThenDeep]
  decide +kernel

/-- In that refusal the column counts bytes, for there is a longer character before it. -/
theorem column_of_refusal_wideThenDeep :
    parse (String.ofList wideThenDeep) =
        .error (.expression ⟨String.ofList wideThenDeep, .tooDeep, 1, 403, 402⟩) ∧
      ∃ before rest, (normalize (String.ofList wideThenDeep)).toList = before ++ rest ∧
        402 = Text.byteLength before ∧ ¬ ∀ c ∈ before, c.utf8Size = 1 := by
  obtain ⟨before, rest, htext, hoffset, -, hagrees⟩ := column_of_refusal _ _ parse_wideThenDeep
  refine ⟨parse_wideThenDeep, before, rest, htext, hoffset, ?_⟩
  intro hnarrow
  have hcolumn := hagrees.mpr (Or.inr hnarrow)
  simp only [charactersBefore_wideThenDeep] at hcolumn
  exact absurd hcolumn (by decide)

/-- The column of a refusal is not always one more than the number of characters before it. -/
theorem column_ne_charactersBefore :
    ¬ ∀ (given : String) (error : ExpressionError), parse given = .error (.expression error) →
      error.column = Text.charactersBefore error.offset (normalize given).toList + 1 := by
  intro h
  have hcolumn := h _ _ parse_wideThenDeep
  simp only [charactersBefore_wideThenDeep] at hcolumn
  exact absurd hcolumn (by decide)

end Expression

end ModelQuery

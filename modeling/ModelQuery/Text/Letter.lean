/-!
# Letter case

Names and keywords are compared without regard to the case of the letters A to Z; every other
character, with or without a case of its own, stands for itself. `stripWord` reads a given word at
the beginning of a text in any such spelling, and `stripWord_append` says that it loses nothing.
-/

namespace ModelQuery.Text

/-- The text with the letters A to Z replaced by a to z. -/
def fold (text : List Char) : List Char :=
  text.map Char.toLower

/-- The two texts are equal up to the case of ASCII letters. -/
def sameWord (left right : String) : Bool :=
  fold left.toList == fold right.toList

/-- Reads `word`, in any case of its ASCII letters, at the beginning of the text: the word as it is
written there, and the text after it. -/
def stripWord : List Char → List Char → Option (List Char × List Char)
  | [], text => some ([], text)
  | _ :: _, [] => none
  | w :: word, c :: text =>
      if w.toLower = c.toLower then
        (stripWord word text).map fun (written, rest) ↦ (c :: written, rest)
      else none

/-- The written word and the text after it make up the text, and the written word is a spelling of
the word that was asked for. -/
theorem stripWord_append (word text written rest : List Char)
    (h : stripWord word text = some (written, rest)) :
    text = written ++ rest ∧ fold written = fold word := by
  induction word generalizing text written with
  | nil =>
      simp only [stripWord, Option.some.injEq, Prod.mk.injEq] at h
      simp [← h.1, ← h.2]
  | cons w word ih =>
      cases text with
      | nil => simp [stripWord] at h
      | cons c text =>
          simp only [stripWord] at h
          split at h
          next hc =>
            simp only [Option.map_eq_some_iff, Prod.exists, Prod.mk.injEq] at h
            obtain ⟨tail, following, hs, rfl, rfl⟩ := h
            obtain ⟨rfl, hf⟩ := ih text tail hs
            exact ⟨rfl, by simp_all [fold]⟩
          next => simp at h

end ModelQuery.Text

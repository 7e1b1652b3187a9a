import ModelQuery.Filter.Combinator
import ModelQuery.Filter.Operator
import ModelQuery.Text.Letter

/-!
# Tokens of expressions

Each function reads one kind of token at the beginning of a text and returns the token as it is
written and the text after it. The lemmas say that the two make up the text.
-/

namespace ModelQuery.Token

/-- A reader of one kind of token: the token as written, and the text after it. -/
abbrev Scanner := List Char → Option (List Char × List Char)

/-- The scanner splits a text and loses nothing of it. -/
def Scanner.Lossless (scan : Scanner) : Prop :=
  ∀ text token rest, scan text = some (token, rest) → text = token ++ rest

/-- An ASCII letter or digit. -/
def isAlphanumeric (c : Char) : Bool :=
  c.isAlpha || c.isDigit

/-- A character of an attribute: an ASCII letter or digit, an underscore or a hyphen. -/
def isNameCharacter (c : Char) : Bool :=
  isAlphanumeric c || c == '_' || c == '-'

/-- A character of a bare value: one of an attribute, a point, a slash or a backslash. -/
def isWordCharacter (c : Char) : Bool :=
  isNameCharacter c || c == '.' || c == '/' || c == '\\'

/-- The longest non-empty run of characters of a class. -/
def run (accepts : Char → Bool) : Scanner
  | [] => none
  | c :: rest =>
      if accepts c then some (c :: rest.takeWhile accepts, rest.dropWhile accepts) else none

/-- One given character. -/
def character (expected : Char) : Scanner
  | [] => none
  | c :: rest => if c = expected then some ([c], rest) else none

/-- A quote, everything up to the next such quote, and that quote. -/
def quoted (quote : Char) : Scanner
  | [] => none
  | c :: rest =>
      if c = quote then
        match rest.dropWhile (· != quote) with
        | [] => none
        | close :: following => some (c :: rest.takeWhile (· != quote) ++ [close], following)
      else none

/-- An attribute. -/
def attributeName : Scanner :=
  run isNameCharacter

/-- A value without quotes. -/
def bareWord : Scanner :=
  run isWordCharacter

/-- A group keyword in any letter case. Whatever follows it may be part of a longer word. -/
def keyword : Scanner := fun text ↦
  Combinator.all.findSome? fun combinator ↦ Text.stripWord combinator.keyword.toList text

/-- An operator symbol. -/
def operator : Scanner := fun text ↦
  Operator.readingOrder.findSome? fun operator ↦
    let symbol := operator.symbol.toList
    if symbol.isPrefixOf text then some (symbol, text.drop symbol.length) else none

/-- The end of the text, an empty token. -/
def endOfText : Scanner
  | [] => some ([], [])
  | _ :: _ => none

/-- A run of characters loses nothing. -/
theorem run_lossless (accepts : Char → Bool) : Scanner.Lossless (run accepts) := by
  intro text token rest h
  cases text with
  | nil => simp [run] at h
  | cons c following =>
      simp only [run] at h
      split at h
      next =>
        simp only [Option.some.injEq, Prod.mk.injEq] at h
        simp [← h.1, ← h.2, List.takeWhile_append_dropWhile]
      next => simp at h

/-- A single character loses nothing. -/
theorem character_lossless (expected : Char) : Scanner.Lossless (character expected) := by
  intro text token rest h
  cases text with
  | nil => simp [character] at h
  | cons c following =>
      simp only [character] at h
      split at h
      next =>
        simp only [Option.some.injEq, Prod.mk.injEq] at h
        simp [← h.1, ← h.2]
      next => simp at h

/-- A quoted value loses nothing. -/
theorem quoted_lossless (quote : Char) : Scanner.Lossless (quoted quote) := by
  intro text token rest h
  cases text with
  | nil => simp [quoted] at h
  | cons c following =>
      simp only [quoted] at h
      split at h
      next =>
        split at h
        next => simp at h
        next close after hdrop =>
          simp only [Option.some.injEq, Prod.mk.injEq] at h
          have hsplit := List.takeWhile_append_dropWhile (p := (· != quote)) (l := following)
          rw [hdrop] at hsplit
          simp [← h.1, ← h.2, hsplit]
      next => simp at h

/-- A keyword loses nothing. -/
theorem keyword_lossless : Scanner.Lossless keyword := by
  intro text token rest h
  obtain ⟨combinator, -, hs⟩ := List.exists_of_findSome?_eq_some h
  exact (Text.stripWord_append _ _ _ _ hs).1

/-- An operator symbol loses nothing. -/
theorem operator_lossless : Scanner.Lossless operator := by
  intro text token rest h
  obtain ⟨candidate, -, hs⟩ := List.exists_of_findSome?_eq_some h
  simp only at hs
  split at hs
  next hp =>
    simp only [Option.some.injEq, Prod.mk.injEq] at hs
    obtain ⟨following, rfl⟩ := List.isPrefixOf_iff_prefix.mp hp
    simp [← hs.1, ← hs.2]
  next => simp at hs

/-- The end of the text loses nothing. -/
theorem endOfText_lossless : Scanner.Lossless endOfText := by
  intro text token rest h
  cases text with
  | nil =>
      simp only [endOfText, Option.some.injEq, Prod.mk.injEq] at h
      simp [← h.1, ← h.2]
  | cons c following => cases h

end ModelQuery.Token

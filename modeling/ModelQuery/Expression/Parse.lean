import ModelQuery.Expression.Depth
import ModelQuery.Expression.Grammar

/-!
# Reading expressions

`Expression.parse` reads an expression: the text is normalized, checked for groups that nest too
deeply, and matched with the grammar. A refusal carries the text as it was given, and its offset
counts in the normalized text.
-/

namespace ModelQuery.Expression

/-- The refusal of a text that nests too deeply, at the given parenthesis. Its column counts
bytes. -/
def tooDeepAt (given : String) (offset : Nat) : Error :=
  .expression ⟨given, .tooDeep, 1, offset + 1, offset⟩

/-- The refusal of a text that does not follow the grammar, at the furthest place that was reached.
Its column counts characters. -/
def refusedAt (given : String) (text : List Char) (frontier : Frontier) : Error :=
  .expression ⟨given, .expected frontier.refused, 1,
    Text.charactersBefore frontier.offset text + 1, frontier.offset⟩

/-- Matches a whole text with the grammar. -/
def matchText (levels : Nat) (text : List Char) : Outcome Node × Frontier :=
  Grammar.expression levels ⟨0, text⟩ .start

/-- The expression that the text is, or the reason why it is none. -/
def parse (given : String) : Except Error Expression :=
  let normalized := normalize given
  let text := normalized.toList
  match Depth.excess? text with
  | some offset => .error (tooDeepAt given offset)
  | none =>
      match matchText groupLimit text with
      | (.matched root _, _) => .ok ⟨normalized, root⟩
      | (.failed, frontier) => .error (refusedAt given text frontier)
      | (.tooDeep offset, _) => .error (tooDeepAt given offset)

end ModelQuery.Expression

import ModelQuery.Expression.Basic

/-!
# Values of conditions

`WrittenValue.content` is what a written value stands for: its text without the quotes.
-/

namespace ModelQuery

/-- The character that a value is quoted with, if it is quoted. -/
def Quote.character? : Quote → Option Char
  | .bare => none
  | .single => some '\''
  | .double => some '"'

/-- The text without one such quote at each end, or nothing if two are not there. -/
def stripQuotes? (quote : Char) : List Char → Option (List Char)
  | [] => none
  | c :: rest => if c = quote ∧ rest.getLast? = some quote then some rest.dropLast else none

/-- The value without its quotes. A text that does not have the quotes of its kind is taken as it
is. -/
def WrittenValue.content (value : WrittenValue) : String :=
  match value.quote.character? with
  | none => value.raw
  | some quote => ((stripQuotes? quote value.raw.toList).map String.ofList).getD value.raw

/-- Between two quotes stands the content. -/
theorem stripQuotes?_quoted (quote : Char) (text : List Char) :
    stripQuotes? quote (quote :: (text ++ [quote])) = some text := by
  simp [stripQuotes?]

/-- A value between the quotes of its form stands for what is between them. -/
theorem WrittenValue.content_quoted {quote : Quote} {mark : Char}
    (h : quote.character? = some mark) (body : List Char) :
    content ⟨quote, String.ofList (mark :: (body ++ [mark]))⟩ = String.ofList body := by
  simp only [content, h, String.toList_ofList, stripQuotes?_quoted, Option.map_some,
    Option.getD_some]

end ModelQuery

import ModelQuery.Text.Letter

/-!
# Group combinators

A group joins its members by one of three combinators. `ofKeyword?` finds the combinator that a
keyword names in any letter case.
-/

namespace ModelQuery

/-- How a group joins its members: all of them hold, one of them holds, or they do not hold. -/
inductive Combinator where
  | conjunction
  | disjunction
  | negation
  deriving DecidableEq, Repr

namespace Combinator

/-- Every combinator. -/
def all : List Combinator :=
  [conjunction, disjunction, negation]

/-- The keyword in small letters. -/
def keyword : Combinator → String
  | conjunction => "and"
  | disjunction => "or"
  | negation => "not"

/-- The combinator whose keyword the text is, in any letter case. -/
def ofKeyword? (text : String) : Option Combinator :=
  all.find? fun combinator ↦ Text.sameWord combinator.keyword text

/-- The list of all combinators leaves none out. -/
theorem mem_all (combinator : Combinator) : combinator ∈ all := by
  cases combinator <;> decide

/-- A combinator is found by every spelling of its keyword. -/
theorem ofKeyword?_of_fold {combinator : Combinator} {text : List Char}
    (h : Text.fold text = combinator.keyword.toList) :
    ofKeyword? (String.ofList text) = some combinator := by
  unfold ofKeyword? Text.sameWord
  rw [String.toList_ofList, h]
  cases combinator <;> decide

/-- What is found by a keyword is the combinator that it spells. -/
theorem ofKeyword?_eq_some_iff {text : String} {combinator : Combinator} :
    ofKeyword? text = some combinator ↔ Text.fold text.toList = combinator.keyword.toList := by
  constructor
  · intro h
    have hfold : Text.fold combinator.keyword.toList = combinator.keyword.toList := by
      cases combinator <;> decide
    have hfound := List.find?_some h
    have hsame : Text.fold combinator.keyword.toList = Text.fold text.toList := eq_of_beq hfound
    rw [← hsame, hfold]
  · intro h
    rw [← String.ofList_toList (s := text)]
    exact ofKeyword?_of_fold h

end Combinator

end ModelQuery

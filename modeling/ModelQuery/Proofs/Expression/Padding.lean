import Mathlib.Logic.Relation
import ModelQuery.Expression.Parse
import ModelQuery.Proofs.Expression.Normal

/-!
# Line breaks and padding

Which changes of a text do not change what is read: `SameButPadding` allows line breaks to be put in
and taken out anywhere, and blanks at either end. These are exactly the changes that normalizing
undoes (`normalize_eq_iff`), so that two such texts are the same expression or are refused with the
same error, which carries the text as it was given (`parse_of_sameButPadding`). The text of an
expression is normalized and is read as the same expression again (`parse_text`).
-/

namespace ModelQuery

/-- The error with the text that it carries, if it does, replaced by another one. -/
def Error.carrying (given : String) : Error → Error
  | .expression error => .expression { error with expression := given }
  | error => error

namespace Text

/-- The second text is the first one with one more character that does not count: a line break
anywhere, or a blank at one of the ends. -/
inductive Padded : List Char → List Char → Prop where
  | lineBreak (before after : List Char) (c : Char) :
      isLineBreak c = true → Padded (before ++ after) (before ++ c :: after)
  | front (text : List Char) (c : Char) : isBlank c = true → Padded text (c :: text)
  | back (text : List Char) (c : Char) : isBlank c = true → Padded text (text ++ [c])

/-- One text is made into the other by putting in and taking out characters that do not count. -/
def SameButPadding : List Char → List Char → Prop :=
  Relation.EqvGen Padded

/-- Taking out all line breaks is a matter of padding. -/
theorem sameButPadding_filter (before text : List Char) :
    SameButPadding (before ++ text.filter (!isLineBreak ·)) (before ++ text) := by
  induction text generalizing before with
  | nil => exact .refl _
  | cons c text ih =>
      cases hc : isLineBreak c with
      | true =>
          rw [List.filter_cons_of_neg (by simp [hc])]
          exact (ih before).trans _ _ _ (.rel _ _ (.lineBreak before text c hc))
      | false =>
          rw [List.filter_cons_of_pos (by simp [hc])]
          simpa using ih (before ++ [c])

/-- Putting blanks before a text is a matter of padding. -/
theorem sameButPadding_front {before : List Char} (h : ∀ c ∈ before, isBlank c = true)
    (text : List Char) : SameButPadding text (before ++ text) := by
  induction before with
  | nil => exact .refl _
  | cons c before ih =>
      obtain ⟨hc, hbefore⟩ := List.forall_mem_cons.mp h
      exact (ih hbefore).trans _ _ _ (.rel _ _ (.front _ c hc))

/-- Putting blanks behind a text is a matter of padding. -/
theorem sameButPadding_back {after : List Char} (h : ∀ c ∈ after, isBlank c = true)
    (text : List Char) : SameButPadding text (text ++ after) := by
  induction after generalizing text with
  | nil =>
      rw [List.append_nil]
      exact .refl _
  | cons c after ih =>
      obtain ⟨hc, hafter⟩ := List.forall_mem_cons.mp h
      have hrest := ih hafter (text ++ [c])
      rw [List.append_assoc, List.singleton_append] at hrest
      exact .trans _ _ _ (.rel _ _ (.back text c hc)) hrest

/-- Trimming is a matter of padding. -/
theorem sameButPadding_trim (text : List Char) : SameButPadding (trim text) text := by
  obtain ⟨before, after, hbefore, hafter, htext⟩ := exists_trim text
  have hfront := sameButPadding_front hbefore (trim text ++ after)
  rw [← htext] at hfront
  exact .trans _ _ _ (sameButPadding_back hafter (trim text)) hfront

end Text

namespace Expression

open Text

/-- A character that does not count is left out when a text is normalized. -/
theorem trim_filter_of_padded {left right : List Char} (h : Padded left right) :
    trim (left.filter (!isLineBreak ·)) = trim (right.filter (!isLineBreak ·)) := by
  cases h with
  | lineBreak before after c hc =>
      rw [List.filter_append, List.filter_append, List.filter_cons_of_neg (by simp [hc])]
  | front text c hc =>
      rw [List.filter_cons]
      split
      next => rw [trim_cons hc]
      next => rfl
  | back text c hc =>
      rw [List.filter_append, List.filter_cons]
      split
      next => rw [List.filter_nil, trim_concat hc]
      next => rw [List.filter_nil, List.append_nil]

/-- Two texts are the same but for padding exactly if they are normalized to the same text. -/
theorem normalize_eq_iff {left right : String} :
    normalize left = normalize right ↔ SameButPadding left.toList right.toList := by
  have hnormal : ∀ text : String, SameButPadding (normalize text).toList text.toList := by
    intro text
    rw [normalize, String.toList_ofList]
    exact .trans _ _ _ (sameButPadding_trim _) (sameButPadding_filter [] text.toList)
  constructor
  · intro h
    have hleft := hnormal left
    rw [h] at hleft
    exact .trans _ _ _ (.symm _ _ hleft) (hnormal right)
  · intro h
    have hinvariant : ∀ {left right : List Char}, SameButPadding left right →
        trim (left.filter (!isLineBreak ·)) = trim (right.filter (!isLineBreak ·)) := by
      intro left right h
      induction h with
      | rel _ _ h => exact trim_filter_of_padded h
      | refl _ => rfl
      | symm _ _ _ ih => exact ih.symm
      | trans _ _ _ _ _ ihleft ihright => exact ihleft.trans ihright
    rw [normalize, normalize, hinvariant h]

/-- A normalized text is normalized to itself. -/
theorem normalize_normalize (text : String) : normalize (normalize text) = normalize text := by
  have hfilter : (normalize text).toList.filter (!isLineBreak ·) = (normalize text).toList :=
    List.filter_eq_self.mpr fun c hc ↦ by rw [isLineBreak_of_mem_normalize hc]; rfl
  rw [normalize, hfilter, normalize, String.toList_ofList, trim_trim]

/-- Texts that are the same but for padding are the same expression, or they are refused with the
same error, which carries the text that was given. -/
theorem parse_of_sameButPadding {left right : String}
    (h : SameButPadding left.toList right.toList) :
    parse right = (parse left).mapError (Error.carrying right) := by
  rw [parse, parse, normalize_eq_iff.mpr h]
  split
  next => rfl
  next => split <;> rfl

/-- The text of an expression is read as the same expression. -/
theorem parse_text {given : String} {expression : Expression} (h : parse given = .ok expression) :
    parse expression.text = .ok expression := by
  have htext : expression.text = normalize given := by
    unfold parse at h
    simp only at h
    split at h
    next => cases h
    next =>
      split at h
      next =>
        obtain rfl := Except.ok.inj h
        rfl
      next => cases h
      next => cases h
  have hsame : SameButPadding given.toList expression.text.toList := by
    rw [← normalize_eq_iff, htext, normalize_normalize]
  rw [parse_of_sameButPadding hsame, h]
  rfl

end Expression

end ModelQuery

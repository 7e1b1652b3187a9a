import ModelQuery.Proofs.Text.Run

/-!
# Trimmed texts

What is left of a text when blank space is taken off its ends. Blank space is all that is taken off
(`exists_trim`), and blank space around a text without blanks at its ends is taken off exactly
(`trim_between`). What stands between two characters that are not blank stays as it is
(`trim_around`).
-/

namespace ModelQuery.Text

/-- What is trimmed from the end of a text leaves its beginning as it is. -/
theorem exists_trimEnd (text : List Char) :
    ∃ after, (∀ c ∈ after, isBlank c = true) ∧ text = trimEnd text ++ after := by
  refine ⟨(text.reverse.takeWhile isBlank).reverse, ?_, ?_⟩
  · intro c hc
    exact of_mem_takeWhile c (List.mem_reverse.mp hc)
  · rw [trimEnd, ← List.reverse_append, List.takeWhile_append_dropWhile, List.reverse_reverse]

/-- Blank space is all that is trimmed from a text. -/
theorem exists_trim (text : List Char) :
    ∃ before after, (∀ c ∈ before, isBlank c = true) ∧ (∀ c ∈ after, isBlank c = true) ∧
      text = before ++ (trim text ++ after) := by
  obtain ⟨after, hafter, hend⟩ := exists_trimEnd (trimStart text)
  refine ⟨text.takeWhile isBlank, after, of_mem_takeWhile, hafter, ?_⟩
  rw [trim, ← hend, trimStart, List.takeWhile_append_dropWhile]

/-- Trimming takes off nothing but blanks. -/
theorem filter_trim (text : List Char) :
    (trim text).filter (!isBlank ·) = text.filter (!isBlank ·) := by
  obtain ⟨before, after, hbefore, hafter, hsplit⟩ := exists_trim text
  have hnone : ∀ {blanks : List Char}, (∀ c ∈ blanks, isBlank c = true) →
      blanks.filter (!isBlank ·) = [] :=
    fun hall ↦ List.filter_eq_nil_iff.mpr fun c hc ↦ by simp [hall c hc]
  have hkept := congrArg (List.filter (!isBlank ·)) hsplit
  rw [List.filter_append, List.filter_append, hnone hbefore, hnone hafter, List.nil_append,
    List.append_nil] at hkept
  exact hkept.symm

/-- What is trimmed from a text was a part of it. -/
theorem mem_of_mem_trim {text : List Char} {c : Char} (h : c ∈ trim text) : c ∈ text := by
  unfold trim trimEnd trimStart at h
  rw [List.mem_reverse] at h
  have hstart := (List.dropWhile_sublist _).subset h
  rw [List.mem_reverse] at hstart
  exact (List.dropWhile_sublist _).subset hstart

/-- Between blank space a text without blanks at its ends is trimmed to. -/
theorem trim_between {before body after : List Char} (hbefore : ∀ c ∈ before, isBlank c = true)
    (hafter : ∀ c ∈ after, isBlank c = true) (hbody : body ≠ [])
    (hbegin : beginsWith isBlank body = false) (hend : beginsWith isBlank body.reverse = false) :
    trim (before ++ (body ++ after)) = body := by
  have hstart : beginsWith isBlank (body ++ after) = false := by
    rw [beginsWith_append _ _ _ hbody]
    exact hbegin
  have hreverse : ∀ c ∈ after.reverse, isBlank c = true := by
    intro c hc
    exact hafter c (List.mem_reverse.mp hc)
  unfold trim trimEnd trimStart
  rw [dropWhile_run hbefore hstart, List.reverse_append, dropWhile_run hreverse hend,
    List.reverse_reverse]

/-- A trimmed text begins with no blank. -/
theorem beginsWith_trim (text : List Char) : beginsWith isBlank (trim text) = false := by
  obtain ⟨after, -, hend⟩ := exists_trimEnd (trimStart text)
  have hstart : beginsWith isBlank (trimStart text) = false := beginsWith_dropWhile isBlank text
  cases htrim : trim text with
  | nil => rfl
  | cons c body =>
      rw [hend, show trimEnd (trimStart text) = c :: body from htrim] at hstart
      exact hstart

/-- A trimmed text ends with no blank. -/
theorem beginsWith_reverse_trim (text : List Char) :
    beginsWith isBlank (trim text).reverse = false := by
  rw [trim, trimEnd, List.reverse_reverse]
  exact beginsWith_dropWhile isBlank _

/-- A text without blanks at its ends is not trimmed. -/
theorem trim_eq_self {text : List Char} (hbegin : beginsWith isBlank text = false)
    (hend : beginsWith isBlank text.reverse = false) : trim text = text := by
  by_cases hempty : text = []
  · rw [hempty]
    rfl
  · have hnone : ∀ c ∈ ([] : List Char), isBlank c = true := fun _ hc ↦ absurd hc List.not_mem_nil
    have htrim := trim_between hnone hnone hempty hbegin hend
    rwa [List.append_nil, List.nil_append] at htrim

/-- Trimming a text again changes nothing. -/
theorem trim_trim (text : List Char) : trim (trim text) = trim text :=
  trim_eq_self (beginsWith_trim text) (beginsWith_reverse_trim text)

/-- A text without any blanks has none at its ends. -/
theorem beginsWith_of_forall {text : List Char} (h : ∀ c ∈ text, isBlank c = false) :
    beginsWith isBlank text = false ∧ beginsWith isBlank text.reverse = false := by
  have hbegin : ∀ part : List Char, (∀ c ∈ part, isBlank c = false) →
      beginsWith isBlank part = false := by
    intro part hpart
    cases part with
    | nil => rfl
    | cons c part => exact hpart c List.mem_cons_self
  exact ⟨hbegin text h, hbegin text.reverse fun c hc ↦ h c (List.mem_reverse.mp hc)⟩

/-- A blank at the beginning of a text is trimmed. -/
theorem trim_cons {c : Char} (h : isBlank c = true) (text : List Char) :
    trim (c :: text) = trim text := by
  rw [trim, trimStart, List.dropWhile_cons, if_pos h]
  rfl

/-- A blank at the end of a text is trimmed. -/
theorem trim_concat {c : Char} (h : isBlank c = true) (text : List Char) :
    trim (text ++ [c]) = trim text := by
  rw [trim, trim, trimStart, trimStart, List.dropWhile_append]
  split
  next hempty =>
    rw [List.isEmpty_iff.mp hempty, List.dropWhile_cons, if_pos h]
    rfl
  next =>
    rw [trimEnd, List.reverse_append, List.reverse_singleton, List.singleton_append,
      List.dropWhile_cons, if_pos h]
    rfl

/-- Characters of a class are dropped up to the first one outside of it. -/
theorem dropWhile_append_cons {accepts : Char → Bool} {left rest : List Char} {c : Char}
    (h : accepts c = false) :
    (left ++ c :: rest).dropWhile accepts = left.dropWhile accepts ++ c :: rest := by
  induction left with
  | nil => simp [h]
  | cons d left ih =>
      rw [List.cons_append, List.dropWhile_cons, List.dropWhile_cons]
      split
      next => exact ih
      next => rfl

/-- A text is trimmed before its first and behind its last character that is not blank. -/
theorem trim_around {left middle right : List Char} {first last : Char}
    (hfirst : isBlank first = false) (hlast : isBlank last = false) :
    trim (left ++ first :: (middle ++ last :: right)) =
      trimStart left ++ first :: (middle ++ last :: trimEnd right) := by
  have hend : ∀ before, trimEnd (before ++ last :: right) = before ++ last :: trimEnd right := by
    intro before
    unfold trimEnd
    rw [List.reverse_append, List.reverse_cons, List.append_assoc, List.singleton_append,
      dropWhile_append_cons hlast]
    simp
  unfold trim trimStart
  rw [dropWhile_append_cons hfirst]
  have hsplit := hend (left.dropWhile isBlank ++ first :: middle)
  simpa using hsplit

end ModelQuery.Text

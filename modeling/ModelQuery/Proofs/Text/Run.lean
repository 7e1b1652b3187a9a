import ModelQuery.Expression.Token
import ModelQuery.Text.Blank
import ModelQuery.Text.Offset

/-!
# Runs of characters of one class

A scanner takes the longest run of characters of a class, so what it takes depends on whether the
text behind the run begins with one more of them. `beginsWith` asks that of a text, and
`takeWhile_run` and `dropWhile_run` say where a text is cut if the answer is no. The classes that
meet at the ends of tokens exclude each other.
-/

namespace ModelQuery.Text

/-- The text begins with a character of the class. -/
def beginsWith (accepts : Char → Bool) : List Char → Bool
  | [] => false
  | c :: _ => accepts c

@[simp] theorem beginsWith_nil (accepts : Char → Bool) : beginsWith accepts [] = false :=
  rfl

@[simp] theorem beginsWith_cons (accepts : Char → Bool) (c : Char) (rest : List Char) :
    beginsWith accepts (c :: rest) = accepts c :=
  rfl

/-- What follows a text does not change how it begins, unless it is empty. -/
theorem beginsWith_append (accepts : Char → Bool) (text rest : List Char) (h : text ≠ []) :
    beginsWith accepts (text ++ rest) = beginsWith accepts text := by
  cases text with
  | nil => exact absurd rfl h
  | cons c text => rfl

/-- The longest run of a class is the given one if the text behind it begins with no more. -/
theorem takeWhile_run {accepts : Char → Bool} {run rest : List Char}
    (hrun : ∀ c ∈ run, accepts c = true) (hrest : beginsWith accepts rest = false) :
    (run ++ rest).takeWhile accepts = run := by
  rw [List.takeWhile_append_of_pos hrun]
  cases rest with
  | nil => simp
  | cons c rest =>
      rw [beginsWith_cons] at hrest
      simp [hrest]

/-- Behind the longest run of a class stands what follows the given run, if that begins with no
more of the class. -/
theorem dropWhile_run {accepts : Char → Bool} {run rest : List Char}
    (hrun : ∀ c ∈ run, accepts c = true) (hrest : beginsWith accepts rest = false) :
    (run ++ rest).dropWhile accepts = rest := by
  rw [List.dropWhile_append_of_pos hrun]
  cases rest with
  | nil => rfl
  | cons c rest =>
      rw [beginsWith_cons] at hrest
      simp [hrest]

/-- Behind the longest run of a class stands no character of the class. -/
theorem beginsWith_dropWhile (accepts : Char → Bool) (text : List Char) :
    beginsWith accepts (text.dropWhile accepts) = false := by
  induction text with
  | nil => rfl
  | cons c text ih =>
      rw [List.dropWhile_cons]
      split
      next => exact ih
      next h => rw [beginsWith_cons]; exact Bool.eq_false_iff.mpr h

/-- Every character of the longest run belongs to the class. -/
theorem of_mem_takeWhile {accepts : Char → Bool} {text : List Char} :
    ∀ c ∈ text.takeWhile accepts, accepts c = true := by
  induction text with
  | nil => simp
  | cons d text ih =>
      intro c hc
      rw [List.takeWhile_cons] at hc
      split at hc
      next h =>
        rcases List.mem_cons.mp hc with rfl | hc
        · exact h
        · exact ih c hc
      next => exact absurd hc List.not_mem_nil

/-- Two runs of a class at the beginning of the same text, one of which is the longest: the other
one is a part of it. -/
theorem exists_append_of_run {accepts : Char → Bool} {shorter rest longer following : List Char}
    (hshorter : ∀ c ∈ shorter, accepts c = true)
    (hfollowing : beginsWith accepts following = false)
    (h : shorter ++ rest = longer ++ following) :
    ∃ more, longer = shorter ++ more ∧ rest = more ++ following := by
  rcases List.append_eq_append_iff.mp h with ⟨more, hlonger, hrest⟩ | ⟨more, hshort, hrest⟩
  · exact ⟨more, hlonger, hrest⟩
  · cases more with
    | nil => exact ⟨[], by simp [hshort], by simp [hrest]⟩
    | cons c more =>
        rw [hrest, List.cons_append, beginsWith_cons] at hfollowing
        rw [hshorter c (by simp [hshort])] at hfollowing
        cases hfollowing

/-- A text has one longest run of a class at its beginning. -/
theorem run_unique {accepts : Char → Bool} {left right leftRest rightRest : List Char}
    (hleft : ∀ c ∈ left, accepts c = true) (hright : ∀ c ∈ right, accepts c = true)
    (hleftRest : beginsWith accepts leftRest = false)
    (hrightRest : beginsWith accepts rightRest = false)
    (h : left ++ leftRest = right ++ rightRest) : left = right ∧ leftRest = rightRest := by
  have htake := takeWhile_run hleft hleftRest
  have hdrop := dropWhile_run hleft hleftRest
  rw [h, takeWhile_run hright hrightRest] at htake
  rw [h, dropWhile_run hright hrightRest] at hdrop
  exact ⟨htake.symm, hdrop.symm⟩

/-- Where a run is followed by a text outside a second class, and no character of the run belongs
to that class either, no character of the class begins the whole. -/
theorem beginsWith_run_append {accepts other : Char → Bool} {run rest : List Char}
    (hrun : ∀ c ∈ run, accepts c = true) (hdisjoint : ∀ c, accepts c = true → other c = false)
    (hrest : beginsWith other rest = false) : beginsWith other (run ++ rest) = false := by
  cases run with
  | nil => exact hrest
  | cons c run => exact hdisjoint c (hrun c List.mem_cons_self)

/-- Where no character of one class belongs to another, none of the other belongs to the one. -/
theorem eq_false_of_disjoint {accepts other : Char → Bool}
    (hdisjoint : ∀ c, accepts c = true → other c = false) (c : Char) (h : other c = true) :
    accepts c = false := by
  by_cases hc : accepts c = true
  · rw [hdisjoint c hc] at h
    cases h
  · exact Bool.eq_false_iff.mpr hc

/-- A text that is not empty has a length in bytes. -/
theorem byteLength_pos {text : List Char} (h : text ≠ []) : 0 < byteLength text := by
  cases text with
  | nil => exact absurd rfl h
  | cons c text =>
      have := c.utf8Size_pos
      rw [byteLength]
      omega

end ModelQuery.Text

namespace ModelQuery.Token

open Text

/-- A character of an attribute may stand in a bare value. -/
theorem isWordCharacter_of_isNameCharacter (c : Char) (h : isNameCharacter c = true) :
    isWordCharacter c = true := by
  simp [isWordCharacter, h]

/-- The codes of ASCII letters. -/
theorem isAlpha_iff_toNat {c : Char} :
    c.isAlpha = true ↔ (65 ≤ c.toNat ∧ c.toNat ≤ 90) ∨ (97 ≤ c.toNat ∧ c.toNat ≤ 122) := by
  change (decide (c.val ≥ 'A'.val ∧ c.val ≤ 'Z'.val) ||
    (decide (c.val ≥ 'a'.val) && decide (c.val ≤ 'z'.val))) = true ↔ _
  simp only [Bool.or_eq_true, Bool.and_eq_true, decide_eq_true_eq]
  exact Iff.rfl

/-- The codes of ASCII digits. -/
theorem toNat_of_isDigit {c : Char} (h : c.isDigit = true) : 48 ≤ c.toNat ∧ c.toNat ≤ 57 :=
  Char.isDigit_iff_toNat.mp h

/-- A character of a bare value is not blank. -/
theorem isBlank_of_isWordCharacter (c : Char) (h : isWordCharacter c = true) :
    isBlank c = false := by
  have hrange : c.toNat = 45 ∨ c.toNat = 46 ∨ c.toNat = 47 ∨ (48 ≤ c.toNat ∧ c.toNat ≤ 57) ∨
      (65 ≤ c.toNat ∧ c.toNat ≤ 92) ∨ c.toNat = 95 ∨ (97 ≤ c.toNat ∧ c.toNat ≤ 122) := by
    simp only [isWordCharacter, isNameCharacter, isAlphanumeric, Bool.or_eq_true, beq_iff_eq] at h
    rcases h with (((((h | h) | rfl) | rfl) | rfl) | rfl) | rfl
    · have := isAlpha_iff_toNat.mp h
      omega
    · have := toNat_of_isDigit h
      omega
    all_goals decide
  simp only [isBlank, blankRanges, List.any_cons, List.any_nil, Bool.or_false, Bool.or_eq_false_iff,
    Bool.and_eq_false_iff, decide_eq_false_iff_not]
  omega

/-- A character of an attribute is not blank. -/
theorem isBlank_of_isNameCharacter (c : Char) (h : isNameCharacter c = true) : isBlank c = false :=
  isBlank_of_isWordCharacter c (isWordCharacter_of_isNameCharacter c h)

/-- A blank character does not belong to a bare value. -/
theorem isWordCharacter_of_isBlank (c : Char) (h : isBlank c = true) : isWordCharacter c = false :=
  eq_false_of_disjoint isBlank_of_isWordCharacter c h

/-- A blank character does not belong to an attribute. -/
theorem isNameCharacter_of_isBlank (c : Char) (h : isBlank c = true) : isNameCharacter c = false :=
  eq_false_of_disjoint isBlank_of_isNameCharacter c h

end ModelQuery.Token

import ModelQuery.Text.Numeral

/-!
# Written numerals

What the numerals that the core library writes look like. Zero stands first only where it stands
alone (`eq_zero_of_head_toDigits`, `length_of_head_values`), and a run of digits is read as such by
the readers that allow underscores (`separatedDigits?_of_digits?`).
-/

namespace ModelQuery.Text

/-- The numeral of a number other than zero does not begin with zero. -/
theorem eq_zero_of_head_toDigits {radix number : Nat} (hone : 1 < radix) (hradix : radix ≤ 16)
    (h : (Nat.toDigits radix number).head? = some '0') : number = 0 := by
  have hdigit : ∀ digit : Fin 16, Nat.digitChar digit = '0' → digit.val = 0 := by decide
  induction number using Nat.strongRecOn with
  | ind number ih =>
      by_cases hlt : number < radix
      · rw [Nat.toDigits_of_lt_base hlt, List.head?_cons, Option.some.injEq] at h
        exact hdigit ⟨number, Nat.lt_of_lt_of_le hlt hradix⟩ h
      · -- the first digit is that of the number without its last digit
        have hle : radix ≤ number := Nat.le_of_not_lt hlt
        have hne : Nat.toDigits radix (number / radix) ≠ [] := Nat.toDigits_ne_nil
        rw [Nat.toDigits_of_base_le hone hle, List.head?_append,
          List.head?_eq_some_head hne, Option.some_or, ← List.head?_eq_some_head hne] at h
        have hless : number / radix < number := Nat.div_lt_self (by omega) hone
        have hzero : number / radix = 0 := ih _ hless h
        rcases (Nat.div_eq_zero_iff).mp hzero with hradix | hnumber
        · omega
        · omega

/-- Only the digit zero has the value zero. -/
theorem eq_zero_of_digitValue? {radix : Nat} {c : Char} (h : digitValue? radix c = some 0) :
    c = '0' := by
  simp only [digitValue?, Option.filter_eq_some_iff] at h
  have hweight := h.1
  have hcode : c.toNat = 48 := by
    unfold digitWeight? at hweight
    grind
  exact Char.toNat_inj.mp hcode

/-- A run of digits is a digit and a run of digits. -/
theorem digits?_cons_eq_some_iff {radix : Nat} {c : Char} {text : List Char} {values : List Nat} :
    digits? radix (c :: text) = some values ↔ ∃ digit further,
      digitValue? radix c = some digit ∧ digits? radix text = some further ∧
        values = digit :: further := by
  simp [digits?, Option.bind_eq_some_iff, @eq_comm _ values]

/-- The values of a written numeral begin with zero only if there is no further digit. -/
theorem length_of_head_values {radix number : Nat} (hone : 1 < radix) (hradix : radix ≤ 16)
    {values : List Nat} (h : digits? radix (Nat.toDigits radix number) = some values)
    (hhead : values.head? = some 0) : values.length = 1 := by
  cases htext : Nat.toDigits radix number with
  | nil => exact absurd htext Nat.toDigits_ne_nil
  | cons c text =>
      rw [htext] at h
      obtain ⟨digit, further, hdigit, hfurther, rfl⟩ := digits?_cons_eq_some_iff.mp h
      rw [List.head?_cons, Option.some.injEq] at hhead
      subst hhead
      obtain rfl := eq_zero_of_digitValue? hdigit
      have hzero := eq_zero_of_head_toDigits hone hradix (congrArg List.head? htext)
      rw [hzero, Nat.toDigits_zero] at htext
      cases htext
      cases hfurther
      rfl

/-- A run of digits goes on without underscores. -/
theorem furtherDigits?_of_digits? {radix : Nat} {text : List Char} {values : List Nat}
    (h : digits? radix text = some values) : furtherDigits? radix text = some values := by
  induction text generalizing values with
  | nil => exact h
  | cons c text ih =>
      obtain ⟨digit, further, hdigit, hfurther, rfl⟩ := digits?_cons_eq_some_iff.mp h
      have hc : c ≠ '_' := by
        rintro rfl
        cases hdigit
      rw [furtherDigits?, hdigit, ih hfurther]
      · rfl
      · exact fun _ _ heq ↦ absurd heq hc

/-- A run of at least one digit is one in which underscores might stand. -/
theorem separatedDigits?_of_digits? {radix : Nat} {text : List Char} {values : List Nat}
    (h : digits? radix text = some values) (hne : text ≠ []) :
    separatedDigits? radix text = some values := by
  cases text with
  | nil => exact absurd rfl hne
  | cons c text =>
      obtain ⟨digit, further, hdigit, hfurther, rfl⟩ := digits?_cons_eq_some_iff.mp h
      rw [separatedDigits?, hdigit, furtherDigits?_of_digits? hfurther]
      rfl

/-- A digit is no other character. -/
theorem ne_of_isDigit {c mark : Char} (h : c.isDigit = true) (hmark : mark.isDigit = false) :
    c ≠ mark := by
  rintro rfl
  rw [h] at hmark
  cases hmark

/-- A decimal numeral consists of digits. -/
theorem isDigit_of_mem_toDigits {number : Nat} {c : Char} (h : c ∈ Nat.toDigits 10 number) :
    c.isDigit = true :=
  Nat.isDigit_of_mem_toDigits (by decide) (by decide) h

/-- A character that is no digit stands nowhere among digits. -/
theorem ne_of_digits {word : List Char} (h : ∀ c ∈ word, c.isDigit = true) {mark : Char}
    (hmark : mark.isDigit = false) (before after : List Char) : word ≠ before ++ mark :: after := by
  rintro rfl
  exact ne_of_isDigit (h mark (by simp)) hmark rfl

/-- Digits alone have no sign. -/
theorem splitSign_digits {word : List Char} (h : ∀ c ∈ word, c.isDigit = true) :
    splitSign word = (false, word) := by
  rw [splitSign]
  · exact ne_of_digits h rfl []
  · exact ne_of_digits h rfl []

end ModelQuery.Text

import ModelQuery.Attribute.Id
import ModelQuery.Proofs.Text.Numeral

/-!
# Canonical hexadecimal text

What the written form of an attribute identifier is, without saying how it is computed:
`IsHexNumeral` says which digits stand for a number, and `IsCanonicalHex` adds the mark and the
sign. The main theorem, `isCanonicalHex_hexText`, says that the text of a number has this form, and
`AttributeId.text_injective` that the text of an identifier belongs to no other.
-/

namespace ModelQuery

/-- The digits are the hexadecimal numeral of the number: digits and small letters, at least one of
them, and zero stands first only where it stands alone. -/
structure IsHexNumeral (digits : List Char) (number : Nat) : Prop where
  ne_nil : digits ≠ []
  small : ∀ c ∈ digits, c ∈ "0123456789abcdef".toList
  no_leading_zero : digits.head? = some '0' → digits = ['0']
  value : (Text.digits? 16 digits).map (Text.valueOfDigits 16) = some number

/-- The text is the number in hexadecimal: a minus sign if the number is negative, the mark `0x`,
and the numeral of its magnitude. -/
def IsCanonicalHex (text : String) (number : Int) : Prop :=
  ∃ digits, IsHexNumeral digits number.natAbs ∧
    text.toList = (if number < 0 then ['-'] else []) ++ '0' :: 'x' :: digits

/-- The digits that the core library writes are small. -/
theorem mem_hexDigits_of_mem_toDigits {number : Nat} {c : Char}
    (h : c ∈ Nat.toDigits 16 number) : c ∈ "0123456789abcdef".toList := by
  have hdigit : ∀ digit : Fin 16, Nat.digitChar digit ∈ "0123456789abcdef".toList := by decide
  induction number using Nat.strongRecOn with
  | ind number ih =>
      by_cases hlt : number < 16
      · rw [Nat.toDigits_of_lt_base hlt, List.mem_singleton] at h
        rw [h]
        exact hdigit ⟨number, hlt⟩
      · rw [Nat.toDigits_of_base_le (by decide) (by omega), List.mem_append,
          List.mem_singleton] at h
        rcases h with h | h
        · exact ih (number / 16) (by omega) h
        · rw [h]
          exact hdigit ⟨number % 16, by omega⟩

/-- The core library writes the numeral of every number. -/
theorem isHexNumeral_toDigits (number : Nat) : IsHexNumeral (Nat.toDigits 16 number) number where
  ne_nil := Nat.toDigits_ne_nil
  small _ := mem_hexDigits_of_mem_toDigits
  no_leading_zero h := by
    rw [Text.eq_zero_of_head_toDigits (by decide) (by decide) h, Nat.toDigits_zero]
  value := by
    obtain ⟨values, hread, hvalue⟩ := Text.digits?_toDigits 16 number (by decide) (by decide)
    rw [hread, Option.map_some, hvalue]

/-- The text of a number is canonical. -/
theorem isCanonicalHex_hexText (number : Int) :
    IsCanonicalHex (AttributeId.hexText number) number := by
  refine ⟨Nat.toDigits 16 number.natAbs, isHexNumeral_toDigits _, ?_⟩
  unfold AttributeId.hexText
  split <;> simp

/-- A text is the canonical form of one number at most. -/
theorem IsCanonicalHex.unique {text : String} {left right : Int} (hleft : IsCanonicalHex text left)
    (hright : IsCanonicalHex text right) : left = right := by
  obtain ⟨digits, hdigits, htext⟩ := hleft
  obtain ⟨others, hothers, hother⟩ := hright
  rw [htext] at hother
  -- the first character tells the sign, and the mark is of one length, so the digits agree
  have hsame : (left < 0 ↔ right < 0) ∧ digits = others := by
    by_cases hnegative : left < 0
    · by_cases hminus : right < 0
      · simpa [hnegative, hminus] using hother
      · simp [hnegative, hminus] at hother
    · by_cases hminus : right < 0
      · simp [hnegative, hminus] at hother
      · simpa [hnegative, hminus] using hother
  have habs : left.natAbs = right.natAbs := by
    have hvalue := hdigits.value
    rw [hsame.2, hothers.value] at hvalue
    exact (Option.some.inj hvalue).symm
  omega

/-- Different identifiers have different texts. -/
theorem AttributeId.text_injective : Function.Injective AttributeId.text := by
  intro left right h
  have hleft : IsCanonicalHex left.text left.value := isCanonicalHex_hexText left.value
  rw [h] at hleft
  exact AttributeId.ext (hleft.unique (isCanonicalHex_hexText right.value))

end ModelQuery

import ModelQuery.Attribute.Resolve
import ModelQuery.Proofs.Attribute.Literal

/-!
# Letter case in names of attributes

Names and literals are resolved without regard to the case of the letters A to Z. Each stage of
reading a literal commutes with folding its text, or is not changed by it, since no letter is blank,
a sign, an underscore or the zero of a radix mark, and a digit has one value in either case. So a
literal is read as its folded text is (`ofLiteral?_of_fold`), and the catalogue compares folded
names anyway (`ofName?_of_fold`).
-/

namespace ModelQuery

namespace Text

/-! ## Signs and digits -/

/-- The sign of a numeral is no matter of letter case. -/
theorem splitSign_fold (text : List Char) :
    splitSign (fold text) = ((splitSign text).1, fold (splitSign text).2) := by
  cases text with
  | nil => rfl
  | cons c text =>
      by_cases hminus : c = '-'
      · subst hminus
        rfl
      · by_cases hplus : c = '+'
        · subst hplus
          rfl
        · have hminusFold : c.toLower ≠ '-' :=
            mt (toLower_eq_mark_iff (by decide) (by decide)).mp hminus
          have hplusFold : c.toLower ≠ '+' :=
            mt (toLower_eq_mark_iff (by decide) (by decide)).mp hplus
          simp [splitSign, hminus, hplus, hminusFold, hplusFold]

/-- Further digits have the same values in either case. -/
theorem furtherDigits?_fold {radix : Nat} (hradix : radix ≤ 16) (text : List Char) :
    furtherDigits? radix (fold text) = furtherDigits? radix text := by
  fun_induction furtherDigits? radix text with
  | case1 => rfl
  | case2 c rest ih =>
      show furtherDigits? radix ('_' :: c.toLower :: fold rest) = _
      rw [furtherDigits?, ih, digitValue?_toLower hradix]
  | case3 c rest hmark ih =>
      have hmarkFold : ∀ d following, c.toLower = '_' → fold rest ≠ d :: following := by
        intro d following hc hrest
        obtain ⟨e, more, rfl, -⟩ := List.map_eq_cons_iff.mp hrest
        exact hmark e more ((toLower_eq_mark_iff (by decide) (by decide)).mp hc) rfl
      rw [fold_cons, furtherDigits?, ih, digitValue?_toLower hradix]
      exact hmarkFold

/-- Digits have the same values in either case, with or without underscores between them. -/
theorem separatedDigits?_fold {radix : Nat} (hradix : radix ≤ 16) (text : List Char) :
    separatedDigits? radix (fold text) = separatedDigits? radix text := by
  cases text with
  | nil => rfl
  | cons c text =>
      rw [fold_cons, separatedDigits?, separatedDigits?, furtherDigits?_fold hradix,
        digitValue?_toLower hradix]

end Text

namespace Literal

open Text

/-! ## Literals -/

/-- An underscore is dropped from the beginning of a folded text as from the text. -/
theorem dropUnderscore_fold (text : List Char) :
    dropUnderscore (fold text) = fold (dropUnderscore text) := by
  cases text with
  | nil => rfl
  | cons c text =>
      by_cases hc : c = '_'
      · subst hc
        rfl
      · have hcFold : c.toLower ≠ '_' := mt (toLower_eq_mark_iff (by decide) (by decide)).mp hc
        simp [dropUnderscore, hc, hcFold]

/-- The letter of a radix mark stands for its radix in either case. -/
theorem markedRadix?_toLower (letter : Char) :
    markedRadix? letter.toLower = markedRadix? letter := by
  rw [markedRadix?, toLower_toLower, markedRadix?]

/-- A radix mark is one in either case, and the digits behind it are folded with it. -/
theorem splitRadix_fold (text : List Char) :
    splitRadix (fold text) = ((splitRadix text).1, fold (splitRadix text).2) := by
  rcases splitRadix_cases text with ⟨letter, radix, rest, rfl, hletter, hsplit⟩ | ⟨hnone, hsplit⟩
  · have hmark : markedRadix? letter.toLower = some radix := by
      rw [markedRadix?_toLower]
      exact markedRadix?_eq_some_iff.mpr hletter
    show splitRadix ('0' :: letter.toLower :: fold rest) = _
    rw [hsplit, splitRadix, hmark, ← dropUnderscore_fold]
  · rcases splitRadix_cases (fold text) with ⟨letter, radix, rest, hfold, hletter, -⟩ | ⟨-, hfolded⟩
    · -- a mark in the folded text is one in the text
      obtain ⟨zero, _, rfl, hzero, hrest⟩ := List.map_eq_cons_iff.mp hfold
      obtain ⟨capital, following, rfl, rfl, -⟩ := List.map_eq_cons_iff.mp hrest
      obtain rfl : zero = '0' := (toLower_eq_mark_iff (by decide) (by decide)).mp hzero
      have hmark := markedRadix?_eq_some_iff.mpr hletter
      rw [markedRadix?_toLower, hnone capital following rfl] at hmark
      cases hmark
    · rw [hfolded, hsplit]

/-- An unsigned literal stands for the number of its folded text. -/
theorem magnitude?_fold (text : List Char) : magnitude? (fold text) = magnitude? text := by
  have hradix : (splitRadix text).1 ≤ 16 := by
    rcases splitRadix_cases text with ⟨_, _, _, _, hletter, hsplit⟩ | ⟨-, hsplit⟩
    · rw [hsplit]
      exact (of_mem_radixLetters hletter).2.1
    · rw [hsplit]
      show 10 ≤ 16
      decide
  rw [magnitude?, magnitude?, splitRadix_fold]
  simp only [separatedDigits?_fold hradix]

/-- A literal stands for the number of its folded text. -/
theorem number?_fold (text : List Char) : number? (fold text) = number? text := by
  rw [number?_eq, number?_eq, trim_fold, signedNumber?, signedNumber?, splitSign_fold,
    magnitude?_fold]

end Literal

open Text (fold)

/-! ## Names -/

variable {left right : String}

/-- Names that differ in letter case only are those of one catalogued attribute, or of none. -/
theorem Attribute.ofName?_of_fold (h : fold left.toList = fold right.toList) :
    ofName? left = ofName? right := by
  simp only [ofName?, Text.sameWord, h]

namespace AttributeId

/-- Texts that differ in letter case only are literals of one identifier, or none is a literal. -/
theorem ofLiteral?_of_fold (h : fold left.toList = fold right.toList) :
    ofLiteral? left = ofLiteral? right := by
  rw [ofLiteral?, ofLiteral?, ← Literal.number?_fold, h, Literal.number?_fold]

/-- Names that differ in letter case only stand for one identifier, or for none. -/
theorem resolve_eq_ok_iff_of_fold (h : fold left.toList = fold right.toList) {id : AttributeId} :
    resolve left = .ok id ↔ resolve right = .ok id := by
  rw [resolve, resolve, Attribute.ofName?_of_fold h, ofLiteral?_of_fold h]
  cases Attribute.ofName? right with
  | some known => rfl
  | none => cases ofLiteral? right <;> simp

/-- Literals that differ in letter case only are those of one name, or none is a literal. -/
theorem nameOfLiteral_eq_ok_iff_of_fold (h : fold left.toList = fold right.toList)
    {name : String} : nameOfLiteral left = .ok name ↔ nameOfLiteral right = .ok name := by
  rw [nameOfLiteral, nameOfLiteral, ofLiteral?_of_fold h]
  cases ofLiteral? right <;> simp

end AttributeId

end ModelQuery

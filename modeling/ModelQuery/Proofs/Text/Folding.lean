import ModelQuery.Text.Blank
import ModelQuery.Text.Letter

/-!
# Folded texts

Characters and their small letters. A letter has the code of its small letter, 32 further on
(`toNat_toLower`), so a character that is no letter is the small letter of itself only
(`toLower_eq_mark_iff`); and no letter is blank, so a folded text is trimmed as the text is
(`trim_fold`).
-/

namespace ModelQuery.Text

/-! ## Characters -/

/-- The code of the small letter of a character. -/
theorem toNat_toLower (c : Char) :
    c.toLower.toNat = if 65 ≤ c.toNat ∧ c.toNat ≤ 90 then c.toNat + 32 else c.toNat := by
  have hcode : c.toNat = c.val.toNat := rfl
  have hupper : (c.val ≥ 'A'.val ∧ c.val ≤ 'Z'.val) ↔ 65 ≤ c.toNat ∧ c.toNat ≤ 90 := by
    simp only [ge_iff_le, UInt32.le_iff_toNat_le]
    exact Iff.rfl
  unfold Char.toLower
  split
  next h =>
    rw [if_pos (hupper.mp h)]
    have hrange := hupper.mp h
    show (c.val + ('a'.val - 'A'.val)).toNat = c.toNat + 32
    rw [UInt32.toNat_add, show ('a'.val - 'A'.val).toNat = 32 from rfl]
    omega
  next h => rw [if_neg fun hrange ↦ h (hupper.mpr hrange)]

/-- A small letter is its own small letter. -/
theorem toLower_toLower (c : Char) : c.toLower.toLower = c.toLower := by
  have hcode := toNat_toLower c
  rw [← Char.toNat_inj, toNat_toLower c.toLower]
  split at hcode <;> split <;> omega

/-- Two characters have the same small letter: that letter and its capital. -/
theorem toLower_eq_iff {c capital small : Char}
    (hcapital : 65 ≤ capital.toNat ∧ capital.toNat ≤ 90)
    (hsmall : capital.toNat + 32 = small.toNat) :
    c.toLower = small ↔ c = small ∨ c = capital := by
  rw [← Char.toNat_inj, ← Char.toNat_inj, ← Char.toNat_inj, toNat_toLower]
  split <;> omega

/-- A character that is no letter is the small letter of itself only. -/
theorem toLower_eq_mark_iff {c mark : Char} (hcapital : ¬ (65 ≤ mark.toNat ∧ mark.toNat ≤ 90))
    (hsmall : ¬ (97 ≤ mark.toNat ∧ mark.toNat ≤ 122)) : c.toLower = mark ↔ c = mark := by
  rw [← Char.toNat_inj, ← Char.toNat_inj, toNat_toLower]
  split <;> omega

/-- A letter is blank in neither case. -/
theorem isBlank_toLower (c : Char) : isBlank c.toLower = isBlank c := by
  rw [Bool.eq_iff_iff]
  simp only [isBlank, blankRanges, List.any_cons, List.any_nil, Bool.or_false, Bool.or_eq_true,
    Bool.and_eq_true, decide_eq_true_eq, toNat_toLower]
  split <;> omega

/-! ## Texts -/

@[simp] theorem fold_nil : fold [] = [] :=
  rfl

@[simp] theorem fold_cons (c : Char) (text : List Char) :
    fold (c :: text) = c.toLower :: fold text :=
  rfl

/-- Blank space is dropped from the beginning of a folded text as from the text. -/
theorem dropWhile_isBlank_fold (text : List Char) :
    (fold text).dropWhile isBlank = fold (text.dropWhile isBlank) := by
  have hsame : isBlank ∘ Char.toLower = isBlank := funext isBlank_toLower
  rw [fold, List.dropWhile_map, hsame, fold]

/-- Blank space is trimmed from a folded text as from the text. -/
theorem trim_fold (text : List Char) : trim (fold text) = fold (trim text) := by
  have hreverse : ∀ part, (fold part).reverse = fold part.reverse := fun _ ↦ List.map_reverse.symm
  rw [trim, trimStart, trimEnd, dropWhile_isBlank_fold, hreverse, dropWhile_isBlank_fold, hreverse]
  rfl

end ModelQuery.Text

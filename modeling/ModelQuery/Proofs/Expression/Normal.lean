import ModelQuery.Expression.Basic
import ModelQuery.Proofs.Text.Trimming

/-!
# Normalized texts

What is left of a text when it is normalized: `isLineBreak_of_mem_normalize` says that no line break
is, and `filter_normalize` that everything but blanks is.
-/

namespace ModelQuery.Expression

/-- No line break is left in a normalized text. -/
theorem isLineBreak_of_mem_normalize {text : String} {c : Char}
    (h : c ∈ (normalize text).toList) : Text.isLineBreak c = false := by
  rw [normalize, String.toList_ofList] at h
  have hfilter := (List.mem_filter.mp (Text.mem_of_mem_trim h)).2
  simpa using hfilter

/-- Normalizing takes out nothing but blanks. -/
theorem filter_normalize (given : String) :
    (normalize given).toList.filter (!Text.isBlank ·) = given.toList.filter (!Text.isBlank ·) := by
  have hbreak : ∀ c ∈ given.toList,
      (!Text.isBlank c && !Text.isLineBreak c) = !Text.isBlank c := by
    intro c _
    cases hc : Text.isLineBreak c with
    | false => exact Bool.and_true _
    | true =>
        rw [Text.isBlank_of_isLineBreak c hc]
        rfl
  rw [normalize, String.toList_ofList, Text.filter_trim, List.filter_filter]
  exact List.filter_congr hbreak

end ModelQuery.Expression

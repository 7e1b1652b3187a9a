import Mathlib.Data.List.Forall2
import Mathlib.Data.List.Induction
import Mathlib.Data.Nat.Digits.Defs
import ModelQuery.Proofs.Text.Folding
import ModelQuery.Proofs.Text.Numeral

/-!
# Digits with underscores between them

What a numeral stands for, and where underscores may stand in it, without saying how either is found
out: `IsDigit` and `IsNumeral` give the value of a digit and of a run of digits, and `IsSeparated`
says that a text consists of such runs with single underscores between them. The main theorem,
`separatedDigits?_eq_some_iff`, says that exactly these texts are read, and `isNumeral_iff` that the
number which is made of the digits is the one they stand for.
-/

namespace ModelQuery.Text

/-- The character is the digit of this value in the radix, in either letter case. -/
def IsDigit (radix : Nat) (c : Char) (value : Nat) : Prop :=
  value < radix ∧ "0123456789abcdef".toList[value]? = some c.toLower

/-- The digits stand for the number: each counts for its value times a power of the radix, the last
for its value alone. -/
def IsNumeral (radix : Nat) (digits : List Char) (number : Nat) : Prop :=
  ∃ values, List.Forall₂ (IsDigit radix) digits values ∧
    number = Nat.ofDigits radix values.reverse

/-- The text consists of runs of at least one character, with one underscore between any two of
them, and the characters of all runs together are the digits. -/
def IsSeparated (text digits : List Char) : Prop :=
  ∃ runs : List (List Char), runs ≠ [] ∧ (∀ run ∈ runs, run ≠ []) ∧
    text = ['_'].intercalate runs ∧ digits = runs.flatten

/-! ## Values of digits -/

/-- A character that is read as a digit is the digit of that value. -/
theorem digitValue?_eq_some_iff {radix : Nat} (hradix : radix ≤ 16) {c : Char} {value : Nat} :
    digitValue? radix c = some value ↔ IsDigit radix c value := by
  have htable : ∀ digit : Fin 16, "0123456789abcdef".toList[digit.val]?.map Char.toNat =
      some (if digit.val < 10 then digit.val + 48 else digit.val + 87) := by decide
  simp only [digitValue?, Option.filter_eq_some_iff, decide_eq_true_eq, IsDigit]
  rw [and_comm]
  refine and_congr_right fun hvalue ↦ ?_
  obtain ⟨small, hsmall, hcode⟩ := Option.map_eq_some_iff.mp (htable ⟨value, by omega⟩)
  -- both sides speak of the code of the character
  rw [show "0123456789abcdef".toList[value]? = some small from hsmall, Option.some.injEq,
    ← Char.toNat_inj, toNat_toLower, show small.toNat = _ from hcode]
  clear htable hsmall hcode
  unfold digitWeight?
  grind

/-- A digit has the same value in either letter case. -/
theorem digitValue?_toLower {radix : Nat} (hradix : radix ≤ 16) (c : Char) :
    digitValue? radix c.toLower = digitValue? radix c := by
  ext value
  rw [digitValue?_eq_some_iff hradix, digitValue?_eq_some_iff hradix, IsDigit, IsDigit,
    toLower_toLower]

/-- What is read from a run of digits are the values of its digits. -/
theorem digits?_eq_some_iff {radix : Nat} (hradix : radix ≤ 16) {text : List Char}
    {values : List Nat} :
    digits? radix text = some values ↔ List.Forall₂ (IsDigit radix) text values := by
  induction text generalizing values with
  | nil =>
      rw [List.forall₂_nil_left_iff]
      exact ⟨fun h ↦ (Option.some.inj h).symm, fun h ↦ h ▸ rfl⟩
  | cons c text ih =>
      rw [digits?_cons_eq_some_iff, List.forall₂_cons_left_iff]
      simp only [digitValue?_eq_some_iff hradix, ih]

/-- The number of a run of digits is the one that they stand for. -/
theorem valueOfDigits_eq_ofDigits (radix : Nat) (values : List Nat) :
    valueOfDigits radix values = Nat.ofDigits radix values.reverse := by
  induction values using List.reverseRecOn with
  | nil => rfl
  | append_singleton values digit ih =>
      rw [valueOfDigits_concat, ih, List.reverse_append, List.reverse_singleton,
        List.singleton_append, Nat.ofDigits_cons]
      ring

/-- Digits stand for the number that is made of them. -/
theorem isNumeral_iff {radix : Nat} (hradix : radix ≤ 16) {digits : List Char} {number : Nat} :
    IsNumeral radix digits number ↔
      ∃ values, digits? radix digits = some values ∧ valueOfDigits radix values = number := by
  simp only [IsNumeral, digits?_eq_some_iff hradix, valueOfDigits_eq_ofDigits, eq_comm]

/-! ## Underscores -/

/-- An underscore is no digit. -/
theorem digitValue?_underscore (radix : Nat) : digitValue? radix '_' = none :=
  rfl

/-- Runs with an underscore before each but the first are runs with underscores between them. -/
theorem intercalate_underscore (run : List Char) (runs : List (List Char)) :
    ['_'].intercalate (run :: runs) = run ++ runs.flatMap ('_' :: ·) := by
  induction runs generalizing run with
  | nil => simp
  | cons next runs ih =>
      rw [List.intercalate_cons_cons, ih, List.flatMap_cons]
      simp

/-- Behind a digit, what is left of its run is read, and then further runs with an underscore before
each of them. -/
theorem furtherDigits?_eq_some_iff {radix : Nat} {text : List Char} {values : List Nat} :
    furtherDigits? radix text = some values ↔ ∃ (run : List Char) (runs : List (List Char)),
      (∀ other ∈ runs, other ≠ []) ∧ text = run ++ runs.flatMap ('_' :: ·) ∧
      digits? radix (run ++ runs.flatten) = some values := by
  fun_induction furtherDigits? radix text generalizing values with
  | case1 =>
      constructor
      · intro h
        exact ⟨[], [], by simp, rfl, h⟩
      · rintro ⟨run, runs, hruns, htext, hvalues⟩
        cases run with
        | cons c run => cases htext
        | nil =>
            cases runs with
            | nil => exact hvalues
            | cons next runs => cases htext
  | case2 c rest ih =>
      simp only [Option.bind_eq_bind, Option.bind_eq_some_iff, Option.pure_def, Option.some.injEq]
      constructor
      · rintro ⟨digit, hdigit, further, hfurther, rfl⟩
        obtain ⟨run, runs, hruns, rfl, hread⟩ := ih.mp hfurther
        refine ⟨[], (c :: run) :: runs, List.forall_mem_cons.mpr ⟨by simp, hruns⟩, by simp, ?_⟩
        exact digits?_cons_eq_some_iff.mpr ⟨digit, further, hdigit, hread, rfl⟩
      · rintro ⟨run, runs, hruns, htext, hvalues⟩
        cases run with
        | cons mark run =>
            -- the underscore would be a digit
            obtain ⟨rfl, -⟩ := List.cons.inj htext
            obtain ⟨_, _, hdigit, -⟩ := digits?_cons_eq_some_iff.mp hvalues
            rw [digitValue?_underscore] at hdigit
            cases hdigit
        | nil =>
            obtain _ | ⟨next, runs⟩ := runs
            · cases htext
            · obtain ⟨hnext, hrest⟩ := List.forall_mem_cons.mp hruns
              obtain ⟨d, next, rfl⟩ := List.exists_cons_of_ne_nil hnext
              obtain ⟨rfl, rfl⟩ : c = d ∧ rest = next ++ runs.flatMap ('_' :: ·) := by
                simpa using htext
              obtain ⟨digit, further, hdigit, hfurther, rfl⟩ := digits?_cons_eq_some_iff.mp hvalues
              exact ⟨digit, hdigit, further, ih.mpr ⟨next, runs, hrest, rfl, hfurther⟩, rfl⟩
  | case3 c rest hmark ih =>
      simp only [Option.bind_eq_bind, Option.bind_eq_some_iff, Option.pure_def, Option.some.injEq]
      constructor
      · rintro ⟨digit, hdigit, further, hfurther, rfl⟩
        obtain ⟨run, runs, hruns, rfl, hread⟩ := ih.mp hfurther
        exact ⟨c :: run, runs, hruns, rfl,
          digits?_cons_eq_some_iff.mpr ⟨digit, further, hdigit, hread, rfl⟩⟩
      · rintro ⟨run, runs, hruns, htext, hvalues⟩
        cases run with
        | nil =>
            -- an underscore with a run behind it is read before
            obtain _ | ⟨next, runs⟩ := runs
            · cases htext
            · obtain ⟨hnext, -⟩ := List.forall_mem_cons.mp hruns
              obtain ⟨d, next, rfl⟩ := List.exists_cons_of_ne_nil hnext
              obtain ⟨rfl, rfl⟩ : c = '_' ∧ rest = d :: (next ++ runs.flatMap ('_' :: ·)) := by
                simpa using htext
              exact absurd rfl (hmark d _ rfl)
        | cons d run =>
            obtain ⟨rfl, rfl⟩ := List.cons.inj htext
            obtain ⟨digit, further, hdigit, hfurther, rfl⟩ := digits?_cons_eq_some_iff.mp hvalues
            exact ⟨digit, hdigit, further, ih.mpr ⟨run, runs, hruns, rfl, hfurther⟩, rfl⟩

/-- What is read are runs of digits with single underscores between them. -/
theorem separatedDigits?_eq_some_iff {radix : Nat} {text : List Char} {values : List Nat} :
    separatedDigits? radix text = some values ↔
      ∃ digits, IsSeparated text digits ∧ digits? radix digits = some values := by
  cases text with
  | nil =>
      refine ⟨nofun, ?_⟩
      rintro ⟨_, ⟨_ | ⟨run, runs⟩, hne, hruns, htext, -⟩, -⟩
      · exact absurd rfl hne
      · rw [intercalate_underscore] at htext
        exact absurd (List.append_eq_nil_iff.mp htext.symm).1 (List.forall_mem_cons.mp hruns).1
  | cons c rest =>
      simp only [separatedDigits?, Option.bind_eq_bind, Option.bind_eq_some_iff, Option.pure_def,
        Option.some.injEq, furtherDigits?_eq_some_iff]
      constructor
      · rintro ⟨digit, hdigit, further, ⟨run, runs, hruns, rfl, hread⟩, rfl⟩
        refine ⟨_,
          ⟨(c :: run) :: runs, by simp, List.forall_mem_cons.mpr ⟨by simp, hruns⟩, ?_, rfl⟩,
          digits?_cons_eq_some_iff.mpr ⟨digit, further, hdigit, hread, rfl⟩⟩
        rw [intercalate_underscore]
        rfl
      · rintro ⟨_, ⟨_ | ⟨run, runs⟩, hne, hruns, htext, rfl⟩, hvalues⟩
        · exact absurd rfl hne
        · obtain ⟨hrun, hothers⟩ := List.forall_mem_cons.mp hruns
          obtain ⟨d, run, rfl⟩ := List.exists_cons_of_ne_nil hrun
          rw [intercalate_underscore] at htext
          obtain ⟨rfl, rfl⟩ := List.cons.inj htext
          obtain ⟨digit, further, hdigit, hfurther, rfl⟩ := digits?_cons_eq_some_iff.mp hvalues
          exact ⟨digit, hdigit, further, ⟨run, runs, hothers, rfl, hfurther⟩, rfl⟩

end ModelQuery.Text

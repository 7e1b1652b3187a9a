import ModelQuery.Proofs.Text.Numeral
import ModelQuery.Proofs.Text.Run
import ModelQuery.Toml.Scalar

/-!
# Words of a TOML document

A word goes on to the next character that ends one. `read?_word` reads it as what it is, unless it
is a date, behind which a time may stand. The main result, `read?_toDigits`, is that the decimal
numeral of a number is read as that number: digits alone are no date, no time and no number with a
fraction.
-/

namespace ModelQuery.Toml.Scalar

open Text

variable {word rest : List Char}

/-- The text behind a number of fixed width is the rest of the word. -/
theorem fixedNumber?_rest {width value : Nat} {text rest : List Char}
    (h : fixedNumber? width text = some (value, rest)) : rest = text.drop width := by
  unfold fixedNumber? at h
  simp only at h
  split at h
  next =>
    simp only [bind, pure, Option.bind_eq_some_iff, Option.some.injEq, Prod.mk.injEq] at h
    obtain ⟨_, _, -, h⟩ := h
    exact h.symm
  next => cases h

/-- Behind a number of fixed width, digits go on with digits. -/
theorem fixedNumber?_digits (h : ∀ c ∈ word, c.isDigit = true) {width value : Nat}
    (hread : fixedNumber? width word = some (value, rest)) : ∀ c ∈ rest, c.isDigit = true := by
  rw [fixedNumber?_rest hread]
  intro c hc
  exact h c (List.mem_of_mem_drop hc)

/-- Digits alone are no date. -/
theorem afterDate?_digits (h : ∀ c ∈ word, c.isDigit = true) : afterDate? word = none := by
  unfold afterDate?
  cases hyear : fixedNumber? 4 word with
  | none => rfl
  | some result =>
      simp only [bind, Option.bind_some]
      split
      next following heq =>
        exact absurd heq (ne_of_digits (fixedNumber?_digits h hyear) rfl [] following)
      next => rfl

/-- Digits alone are no time. -/
theorem afterTime?_digits (h : ∀ c ∈ word, c.isDigit = true) : afterTime? word = none := by
  have hminute : afterMinute? word = none := by
    unfold afterMinute?
    cases hhour : fixedNumber? 2 word with
    | none => rfl
    | some result =>
        simp only [bind, Option.bind_some]
        split
        next following heq =>
          exact absurd heq (ne_of_digits (fixedNumber?_digits h hhour) rfl [] following)
        next => rfl
  rw [afterTime?, hminute]
  rfl

/-- Digits alone are no number with a fraction. -/
theorem isFloat_digits (h : ∀ c ∈ word, c.isDigit = true) : isFloat word = false := by
  have hclass : ∀ c ∈ word, isDigitOrUnderscore c = true := by
    intro c hc
    simp [isDigitOrUnderscore, h c hc]
  have hrest := dropWhile_run hclass (show beginsWith isDigitOrUnderscore [] = false from rfl)
  rw [List.append_nil] at hrest
  unfold isFloat
  simp only [splitSign_digits h, hrest]
  split
  next hname =>
    simp only [Bool.or_eq_true, beq_iff_eq] at hname
    rcases hname with hname | hname
    · exact absurd hname (ne_of_digits h rfl [] _)
    · exact absurd hname (ne_of_digits h rfl [] _)
  next =>
    -- nothing stands behind the digits, neither a fraction nor an exponent
    split
    next =>
      split
      next => rfl
      next => rfl
    next => rfl

/-- The numeral of a number is a whole numeral. -/
theorem wholeNumber?_toDigits (number : Nat) :
    wholeNumber? (Nat.toDigits 10 number) = some number := by
  obtain ⟨values, hread, hvalue⟩ := digits?_toDigits 10 number (by decide) (by decide)
  have hzero : (values.head? == some 0 && values.length != 1) = false := by
    cases hhead : values.head? == some 0 with
    | false => rfl
    | true =>
        have hlength := length_of_head_values (by decide) (by decide) hread (by simpa using hhead)
        simp [hlength]
  rw [wholeNumber?, separatedDigits?_of_digits? hread Nat.toDigits_ne_nil]
  simp only [bind, Option.bind_some, hzero, hvalue]
  rfl

/-- A number of 63 bits is read from its decimal digits. -/
theorem item?_toDigits {number : Nat} (h : number < 0x8000000000000000) :
    item? (Nat.toDigits 10 number) = some (.integer number) := by
  have hdigits : ∀ c ∈ Nat.toDigits 10 number, c.isDigit = true := fun _ hc ↦
    isDigit_of_mem_toDigits hc
  have hwhole := wholeNumber?_toDigits number
  generalize Nat.toDigits 10 number = word at hdigits hwhole ⊢
  have hmoment : isMoment word = false := by
    simp [isMoment, isDate, isTime, afterDate?_digits hdigits, afterTime?_digits hdigits]
  have hnumber : number? word = some (number : Int) := by
    rw [number?, splitSign_digits hdigits]
    · simp only [hwhole]
      rfl
    · exact ne_of_digits hdigits rfl ['0']
    · exact ne_of_digits hdigits rfl ['0']
    · exact ne_of_digits hdigits rfl ['0']
  have hrange : -0x8000000000000000 ≤ (number : Int) ∧ (number : Int) < 0x8000000000000000 := by
    omega
  have hinteger : integer? word = some (number : Int) := by
    rw [integer?, hnumber]
    simp [Option.filter, hrange]
  have htrue : (word == ['t', 'r', 'u', 'e']) = false := by
    simpa using ne_of_digits hdigits rfl [] _
  have hfalse : (word == ['f', 'a', 'l', 's', 'e']) = false := by
    simpa using ne_of_digits hdigits rfl [] _
  rw [item?, hmoment, isFloat_digits hdigits, htrue, hfalse, hinteger]
  rfl

/-- A digit does not end a word. -/
theorem endsWord_of_isDigit {c : Char} (h : c.isDigit = true) : endsWord c = false := by
  have hne : ∀ mark : Char, mark.isDigit = false → (c == mark) = false := by
    intro mark hmark
    simpa using ne_of_isDigit h hmark
  simp [endsWord, hne]

/-- A word is read up to the end of the line, unless it is a date. -/
theorem read?_word (hword : ∀ c ∈ word, endsWord c = false) (hdate : isDate word = false) :
    read? (word ++ '\n' :: rest) = (item? word).map fun item ↦ (item, '\n' :: rest) := by
  have hrun : ∀ c ∈ word, (!endsWord c) = true := by
    intro c hc
    rw [hword c hc]
    rfl
  have hstop : beginsWith (!endsWord ·) ('\n' :: rest) = false := rfl
  unfold read?
  simp only [takeWhile_run hrun hstop, dropWhile_run hrun hstop, hdate, Bool.false_and]
  rfl

/-- A number of 63 bits is read from its decimal digits up to the end of the line. -/
theorem read?_toDigits {number : Nat} (h : number < 0x8000000000000000) :
    read? (Nat.toDigits 10 number ++ '\n' :: rest) = some (.integer number, '\n' :: rest) := by
  have hdigits : ∀ c ∈ Nat.toDigits 10 number, c.isDigit = true := fun _ hc ↦
    isDigit_of_mem_toDigits hc
  have hword : ∀ c ∈ Nat.toDigits 10 number, endsWord c = false := fun c hc ↦
    endsWord_of_isDigit (hdigits c hc)
  have hdate : isDate (Nat.toDigits 10 number) = false := by
    simp [isDate, afterDate?_digits hdigits]
  rw [read?_word hword hdate, item?_toDigits h]
  rfl

/-- A truth value is read from its word up to the end of the line. -/
theorem read?_boolean (value : Bool) :
    read? ((if value then "true" else "false").toList ++ '\n' :: rest) =
      some (.boolean value, '\n' :: rest) := by
  have hends : ∀ word : List Char, word.any endsWord = false → ∀ c ∈ word, endsWord c = false :=
    fun word h c hc ↦ Bool.eq_false_iff.mpr (List.any_eq_false.mp h c hc)
  cases value with
  | true => exact read?_word (hends ['t', 'r', 'u', 'e'] rfl) rfl
  | false => exact read?_word (hends ['f', 'a', 'l', 's', 'e'] rfl) rfl

end ModelQuery.Toml.Scalar

import ModelQuery.Attribute.Literal
import ModelQuery.Proofs.Text.Separated
import ModelQuery.Proofs.Text.Trimming

/-!
# What integer literals stand for

`IsLiteral` says which texts are integer literals and which number each of them stands for: blank
space, a sign, and digits with a radix mark or decimal digits. `number?_eq_some_iff` says that
exactly these are read, as exactly that number. Every number is written as a literal, in decimal and
behind each radix mark (`isMagnitude_decimal`, `isMagnitude_marked`, `IsMagnitude.signed`).
-/

namespace ModelQuery.Literal

open Text

/-- The letters of the radix marks, with the radixes that they stand for. -/
def radixLetters : List (Char × Nat) :=
  [('x', 16), ('X', 16), ('o', 8), ('O', 8), ('b', 2), ('B', 2)]

/-- The text is an unsigned literal of the number: a radix mark, at most one underscore and digits
of that radix, or decimal digits, which begin with zero only if all of them are zero. Single
underscores may stand between digits. -/
inductive IsMagnitude : List Char → Nat → Prop where
  | marked (letter : Char) (radix : Nat) (underscore text digits : List Char) (number : Nat) :
      (letter, radix) ∈ radixLetters → underscore = [] ∨ underscore = ['_'] →
      IsSeparated text digits → IsNumeral radix digits number →
      IsMagnitude ('0' :: letter :: (underscore ++ text)) number
  | decimal (text digits : List Char) (number : Nat) :
      IsSeparated text digits → IsNumeral 10 digits number →
      (digits.head? = some '0' → ∀ c ∈ digits, c = '0') → IsMagnitude text number

/-- The text is an unsigned literal of the number, or one of its magnitude behind a sign. -/
inductive IsSigned : List Char → Int → Prop where
  | unsigned (text : List Char) (number : Nat) : IsMagnitude text number → IsSigned text number
  | plus (text : List Char) (number : Nat) : IsMagnitude text number → IsSigned ('+' :: text) number
  | minus (text : List Char) (number : Nat) :
      IsMagnitude text number → IsSigned ('-' :: text) (-number)

/-- The text is a literal of the number with blank space around it. -/
def IsLiteral (text : List Char) (number : Int) : Prop :=
  ∃ before body after, text = before ++ (body ++ after) ∧ (∀ c ∈ before, isBlank c = true) ∧
    (∀ c ∈ after, isBlank c = true) ∧ IsSigned body number

/-! ## Radix marks -/

/-- A radix mark is one of six letters. -/
theorem markedRadix?_eq_some_iff {letter : Char} {radix : Nat} :
    markedRadix? letter = some radix ↔ (letter, radix) ∈ radixLetters := by
  have hx : letter.toLower = 'x' ↔ letter = 'x' ∨ letter = 'X' := toLower_eq_iff (by decide) rfl
  have ho : letter.toLower = 'o' ↔ letter = 'o' ∨ letter = 'O' := toLower_eq_iff (by decide) rfl
  have hb : letter.toLower = 'b' ↔ letter = 'b' ∨ letter = 'B' := toLower_eq_iff (by decide) rfl
  simp only [radixLetters, List.mem_cons, List.not_mem_nil, or_false, Prod.mk.injEq]
  unfold markedRadix?
  split
  next h => rcases hx.mp h with rfl | rfl <;> simp [eq_comm]
  next h => rcases ho.mp h with rfl | rfl <;> simp [eq_comm]
  next h => rcases hb.mp h with rfl | rfl <;> simp [eq_comm]
  next hnx hno hnb =>
    refine ⟨nofun, ?_⟩
    rintro (⟨rfl, -⟩ | ⟨rfl, -⟩ | ⟨rfl, -⟩ | ⟨rfl, -⟩ | ⟨rfl, -⟩ | ⟨rfl, -⟩)
    · exact absurd rfl hnx
    · exact absurd rfl hnx
    · exact absurd rfl hno
    · exact absurd rfl hno
    · exact absurd rfl hnb
    · exact absurd rfl hnb

/-- Radixes fit the digits that there are, and a mark is neither decimal nor a decimal digit. -/
theorem of_mem_radixLetters {letter : Char} {radix : Nat} (h : (letter, radix) ∈ radixLetters) :
    1 < radix ∧ radix ≤ 16 ∧ radix ≠ 10 ∧ digitValue? 10 letter = none ∧
      isBlank letter = false := by
  simp only [radixLetters, List.mem_cons, List.not_mem_nil, or_false, Prod.mk.injEq] at h
  rcases h with ⟨rfl, rfl⟩ | ⟨rfl, rfl⟩ | ⟨rfl, rfl⟩ | ⟨rfl, rfl⟩ | ⟨rfl, rfl⟩ | ⟨rfl, rfl⟩ <;>
    decide

/-- What is left behind a radix mark, or the whole text if it has none. -/
theorem splitRadix_cases (text : List Char) :
    (∃ letter radix rest, text = '0' :: letter :: rest ∧ (letter, radix) ∈ radixLetters ∧
        splitRadix text = (radix, dropUnderscore rest)) ∨
      (∀ letter rest, text = '0' :: letter :: rest → markedRadix? letter = none) ∧
        splitRadix text = (10, text) := by
  unfold splitRadix
  split
  next letter rest =>
    split
    next radix hmark =>
      exact Or.inl ⟨letter, radix, rest, rfl, markedRadix?_eq_some_iff.mp hmark, rfl⟩
    next hmark =>
      refine Or.inr ⟨fun other following h ↦ ?_, rfl⟩
      obtain ⟨-, hletter⟩ := List.cons.inj h
      obtain ⟨rfl, -⟩ := List.cons.inj hletter
      exact hmark
  next hother => exact Or.inr ⟨fun letter rest h ↦ absurd h (hother letter rest), rfl⟩

/-! ## Digits -/

/-- What is read as digits with underscores between them begins with a digit. -/
theorem head_of_separatedDigits? {radix : Nat} {text : List Char} {values : List Nat}
    (h : separatedDigits? radix text = some values) :
    ∃ c rest digit, text = c :: rest ∧ digitValue? radix c = some digit := by
  cases text with
  | nil => cases h
  | cons c rest =>
      simp only [separatedDigits?, Option.bind_eq_bind, Option.bind_eq_some_iff] at h
      obtain ⟨digit, hdigit, -⟩ := h
      exact ⟨c, rest, digit, rfl, hdigit⟩

/-- Digits have no underscore before them. -/
theorem dropUnderscore_of_separatedDigits? {radix : Nat} {text : List Char} {values : List Nat}
    (h : separatedDigits? radix text = some values) : dropUnderscore text = text := by
  obtain ⟨c, rest, digit, rfl, hdigit⟩ := head_of_separatedDigits? h
  unfold dropUnderscore
  split
  next heq =>
    obtain ⟨rfl, -⟩ := List.cons.inj heq
    cases hdigit
  next => rfl

/-- Digits have a leading zero that does not belong there if the first of them is zero and another
one is not. -/
theorem hasNoLeadingZero_iff {digits : List Char} {values : List Nat}
    (h : digits? 10 digits = some values) :
    hasNoLeadingZero values = true ↔ (digits.head? = some '0' → ∀ c ∈ digits, c = '0') := by
  have hzero : ∀ c value, digitValue? 10 c = some value → (value = 0 ↔ c = '0') := by
    intro c value hvalue
    constructor
    · rintro rfl
      exact eq_zero_of_digitValue? hvalue
    · rintro rfl
      exact (Option.some.inj hvalue).symm
  have hall : (values.all (· == 0)) = true ↔ ∀ c ∈ digits, c = '0' := by
    induction digits generalizing values with
    | nil =>
        obtain rfl := Option.some.inj h
        simp
    | cons c digits ih =>
        obtain ⟨value, further, hvalue, hfurther, rfl⟩ := digits?_cons_eq_some_iff.mp h
        rw [List.all_cons, Bool.and_eq_true, beq_iff_eq, hzero c value hvalue, ih hfurther,
          List.forall_mem_cons]
  have hhead : values.head? = some 0 ↔ digits.head? = some '0' := by
    cases digits with
    | nil =>
        obtain rfl := Option.some.inj h
        simp
    | cons c digits =>
        obtain ⟨value, further, hvalue, -, rfl⟩ := digits?_cons_eq_some_iff.mp h
        simp [hzero c value hvalue]
  rw [hasNoLeadingZero, Bool.or_eq_true, hall, bne_iff_ne, ne_eq, hhead, imp_iff_not_or]

/-! ## Magnitudes -/

/-- Digits of a radix with underscores between them, and the number that they stand for. -/
theorem separated_iff {radix : Nat} (hradix : radix ≤ 16) {text : List Char} {number : Nat} :
    (∃ digits, IsSeparated text digits ∧ IsNumeral radix digits number) ↔
      ∃ values, separatedDigits? radix text = some values ∧
        valueOfDigits radix values = number := by
  simp only [separatedDigits?_eq_some_iff, isNumeral_iff hradix]
  constructor
  · rintro ⟨digits, hseparated, values, hread, hvalue⟩
    exact ⟨values, ⟨digits, hseparated, hread⟩, hvalue⟩
  · rintro ⟨values, ⟨digits, hseparated, hread⟩, hvalue⟩
    exact ⟨digits, hseparated, values, hread, hvalue⟩

/-- An unsigned literal is read by its digits, and a decimal one must have no leading zero. -/
theorem magnitude?_eq_some_iff {text digits : List Char} {radix number : Nat}
    (hsplit : splitRadix text = (radix, digits)) :
    magnitude? text = some number ↔ ∃ values, separatedDigits? radix digits = some values ∧
      (radix = 10 → hasNoLeadingZero values = true) ∧ valueOfDigits radix values = number := by
  have hguard : ∀ values, (radix == 10 && !hasNoLeadingZero values) = true ↔
      ¬ (radix = 10 → hasNoLeadingZero values = true) := by
    simp
  unfold magnitude?
  rw [hsplit, Option.bind_eq_bind, Option.bind_eq_some_iff]
  refine exists_congr fun values ↦ and_congr_right fun _ ↦ ?_
  simp only [hguard]
  split
  next hleading => exact ⟨nofun, fun h ↦ absurd h.1 hleading⟩
  next hleading =>
    rw [not_not] at hleading
    exact ⟨fun h ↦ ⟨hleading, Option.some.inj h⟩, fun h ↦ congrArg some h.2⟩

/-- What is read as an unsigned literal is one, of the number that is read. -/
theorem isMagnitude_of_magnitude? {text : List Char} {number : Nat}
    (h : magnitude? text = some number) : IsMagnitude text number := by
  rcases splitRadix_cases text with ⟨letter, radix, rest, rfl, hletter, hsplit⟩ | ⟨-, hsplit⟩
  · obtain ⟨values, hread, -, hvalue⟩ := (magnitude?_eq_some_iff hsplit).mp h
    obtain ⟨-, hradix, -⟩ := of_mem_radixLetters hletter
    obtain ⟨digits, hseparated, hnumeral⟩ := (separated_iff hradix).mpr ⟨values, hread, hvalue⟩
    obtain ⟨underscore, hcase, hrest⟩ : ∃ underscore, (underscore = [] ∨ underscore = ['_']) ∧
        rest = underscore ++ dropUnderscore rest := by
      unfold dropUnderscore
      split
      next => exact ⟨['_'], Or.inr rfl, rfl⟩
      next => exact ⟨[], Or.inl rfl, rfl⟩
    rw [hrest]
    exact .marked letter radix underscore _ digits number hletter hcase hseparated hnumeral
  · obtain ⟨values, hread, hleading, hvalue⟩ := (magnitude?_eq_some_iff hsplit).mp h
    obtain ⟨digits, hseparated, hdigits⟩ := separatedDigits?_eq_some_iff.mp hread
    exact .decimal text digits number hseparated
      ((isNumeral_iff (by decide)).mpr ⟨values, hdigits, hvalue⟩)
      ((hasNoLeadingZero_iff hdigits).mp (hleading rfl))

/-- Decimal digits have no radix mark. -/
theorem splitRadix_of_separatedDigits? {text : List Char} {values : List Nat}
    (h : separatedDigits? 10 text = some values) : splitRadix text = (10, text) := by
  rcases splitRadix_cases text with ⟨letter, radix, rest, rfl, hletter, -⟩ | ⟨-, hsplit⟩
  · -- the letter of a mark is no decimal digit, and no underscore either
    obtain ⟨-, -, -, hdigit, -⟩ := of_mem_radixLetters hletter
    have hmark : letter ≠ '_' := by
      rintro rfl
      simp [radixLetters] at hletter
    simp only [separatedDigits?, Option.bind_eq_bind, Option.bind_eq_some_iff] at h
    obtain ⟨_, -, further, hfurther, -⟩ := h
    rw [furtherDigits?, hdigit] at hfurther
    · cases hfurther
    · exact fun _ _ heq ↦ absurd heq hmark
  · exact hsplit

/-- An unsigned literal of a number is read as that number. -/
theorem IsMagnitude.magnitude? {text : List Char} {number : Nat} (h : IsMagnitude text number) :
    magnitude? text = some number := by
  cases h with
  | marked letter radix underscore text digits number hletter hcase hseparated hnumeral =>
      obtain ⟨-, hradix, hten, -⟩ := of_mem_radixLetters hletter
      obtain ⟨values, hread, hvalue⟩ := (separated_iff hradix).mp ⟨digits, hseparated, hnumeral⟩
      have hdrop : dropUnderscore (underscore ++ text) = text := by
        rcases hcase with rfl | rfl
        · exact dropUnderscore_of_separatedDigits? hread
        · rfl
      have hsplit : splitRadix ('0' :: letter :: (underscore ++ text)) = (radix, text) := by
        simp only [splitRadix, markedRadix?_eq_some_iff.mpr hletter, hdrop]
      exact (magnitude?_eq_some_iff hsplit).mpr
        ⟨values, hread, fun heq ↦ absurd heq hten, hvalue⟩
  | decimal _ digits number hseparated hnumeral hleading =>
      obtain ⟨values, hdigits, hvalue⟩ := (isNumeral_iff (by decide)).mp hnumeral
      have hread := separatedDigits?_eq_some_iff.mpr ⟨digits, hseparated, hdigits⟩
      exact (magnitude?_eq_some_iff (splitRadix_of_separatedDigits? hread)).mpr
        ⟨values, hread, fun _ ↦ (hasNoLeadingZero_iff hdigits).mpr hleading, hvalue⟩

/-! ## Signs and blank space -/

/-- No digit is blank. -/
theorem isBlank_of_digitValue? {radix : Nat} {c : Char} {value : Nat}
    (h : digitValue? radix c = some value) : isBlank c = false := by
  have hweight := (Option.filter_eq_some_iff.mp h).1
  have hrange : (48 ≤ c.toNat ∧ c.toNat ≤ 57) ∨ (97 ≤ c.toNat ∧ c.toNat ≤ 122) ∨
      (65 ≤ c.toNat ∧ c.toNat ≤ 90) := by
    unfold digitWeight? at hweight
    grind
  simp only [isBlank, blankRanges, List.any_cons, List.any_nil, Bool.or_false, Bool.or_eq_false_iff,
    Bool.and_eq_false_iff, decide_eq_false_iff_not]
  omega

/-- No blank is read among digits. -/
theorem isBlank_of_separatedDigits? {radix : Nat} {text : List Char} {values : List Nat}
    (h : separatedDigits? radix text = some values) : ∀ c ∈ text, isBlank c = false := by
  have hfurther : ∀ text values, furtherDigits? radix text = some values →
      ∀ c ∈ text, isBlank c = false := by
    intro text
    fun_induction furtherDigits? radix text with
    | case1 => simp
    | case2 c rest ih =>
        intro values hread
        simp only [Option.bind_eq_bind, Option.bind_eq_some_iff] at hread
        obtain ⟨digit, hdigit, further, hrest, -⟩ := hread
        exact List.forall_mem_cons.mpr ⟨rfl, List.forall_mem_cons.mpr
          ⟨isBlank_of_digitValue? hdigit, ih further hrest⟩⟩
    | case3 c rest _ ih =>
        intro values hread
        simp only [Option.bind_eq_bind, Option.bind_eq_some_iff] at hread
        obtain ⟨digit, hdigit, further, hrest, -⟩ := hread
        exact List.forall_mem_cons.mpr ⟨isBlank_of_digitValue? hdigit, ih further hrest⟩
  cases text with
  | nil => simp
  | cons c rest =>
      simp only [separatedDigits?, Option.bind_eq_bind, Option.bind_eq_some_iff] at h
      obtain ⟨digit, hdigit, further, hrest, -⟩ := h
      exact List.forall_mem_cons.mpr ⟨isBlank_of_digitValue? hdigit, hfurther rest further hrest⟩

/-- An unsigned literal begins with a decimal digit, and no character of it is blank. -/
theorem IsMagnitude.characters {text : List Char} {number : Nat} (h : IsMagnitude text number) :
    (∃ c rest digit, text = c :: rest ∧ digitValue? 10 c = some digit) ∧
      ∀ c ∈ text, isBlank c = false := by
  cases h with
  | marked letter radix underscore text digits number hletter hcase hseparated hnumeral =>
      obtain ⟨-, hradix, -, -, hblank⟩ := of_mem_radixLetters hletter
      obtain ⟨values, hread, -⟩ := (separated_iff hradix).mp ⟨digits, hseparated, hnumeral⟩
      refine ⟨⟨'0', _, 0, rfl, rfl⟩, List.forall_mem_cons.mpr ⟨rfl, List.forall_mem_cons.mpr
        ⟨hblank, List.forall_mem_append.mpr ⟨?_, isBlank_of_separatedDigits? hread⟩⟩⟩⟩
      rcases hcase with rfl | rfl
      · simp
      · exact List.forall_mem_singleton.mpr rfl
  | decimal _ digits number hseparated hnumeral =>
      obtain ⟨values, hread, -⟩ := (separated_iff (by decide)).mp ⟨digits, hseparated, hnumeral⟩
      exact ⟨head_of_separatedDigits? hread, isBlank_of_separatedDigits? hread⟩

/-- An unsigned literal has no sign. -/
theorem IsMagnitude.splitSign {text : List Char} {number : Nat} (h : IsMagnitude text number) :
    splitSign text = (false, text) := by
  obtain ⟨⟨c, rest, digit, rfl, hdigit⟩, -⟩ := h.characters
  unfold Text.splitSign
  split
  next heq =>
    obtain ⟨rfl, -⟩ := List.cons.inj heq
    cases hdigit
  next heq =>
    obtain ⟨rfl, -⟩ := List.cons.inj heq
    cases hdigit
  next => rfl

/-- A text with or without a sign is a sign, or none, and the rest. -/
theorem splitSign_cases (text : List Char) :
    (∃ rest, text = '-' :: rest ∧ splitSign text = (true, rest)) ∨
      (∃ rest, text = '+' :: rest ∧ splitSign text = (false, rest)) ∨
        splitSign text = (false, text) := by
  unfold splitSign
  split
  next rest => exact Or.inl ⟨rest, rfl, rfl⟩
  next rest => exact Or.inr (Or.inl ⟨rest, rfl, rfl⟩)
  next => exact Or.inr (Or.inr rfl)

/-- A signed literal is not empty, and no character of it is blank. -/
theorem IsSigned.characters {text : List Char} {number : Int} (h : IsSigned text number) :
    text ≠ [] ∧ ∀ c ∈ text, isBlank c = false := by
  cases h with
  | unsigned text number hmagnitude =>
      obtain ⟨⟨c, rest, _, rfl, -⟩, hblank⟩ := hmagnitude.characters
      exact ⟨by simp, hblank⟩
  | plus text number hmagnitude | minus text number hmagnitude =>
      exact ⟨by simp, List.forall_mem_cons.mpr ⟨rfl, hmagnitude.characters.2⟩⟩

/-- The number of a literal without blank space around it. -/
def signedNumber? (text : List Char) : Option Int :=
  (magnitude? (splitSign text).2).map fun magnitude : Nat ↦
    if (splitSign text).1 then -(magnitude : Int) else magnitude

/-- A literal is trimmed before it is read. -/
theorem number?_eq (text : List Char) : number? text = signedNumber? (trim text) := by
  simp only [number?, signedNumber?]
  cases magnitude? (splitSign (trim text)).2 <;> rfl

/-- What is read of a trimmed text is a signed literal of that number, and every such literal is
read. -/
theorem signedNumber?_eq_some_iff {text : List Char} {number : Int} :
    signedNumber? text = some number ↔ IsSigned text number := by
  unfold signedNumber?
  constructor
  · intro h
    obtain ⟨magnitude, hread, hsign⟩ := Option.map_eq_some_iff.mp h
    have hmagnitude := isMagnitude_of_magnitude? hread
    rcases splitSign_cases text with ⟨rest, rfl, hsplit⟩ | ⟨rest, rfl, hsplit⟩ | hsplit
    · rw [hsplit] at hmagnitude hsign
      exact hsign ▸ .minus rest magnitude hmagnitude
    · rw [hsplit] at hmagnitude hsign
      exact hsign ▸ .plus rest magnitude hmagnitude
    · rw [hsplit] at hmagnitude hsign
      exact hsign ▸ .unsigned text magnitude hmagnitude
  · intro h
    cases h with
    | unsigned text number hmagnitude =>
        rw [hmagnitude.splitSign, hmagnitude.magnitude?]
        rfl
    | plus text number hmagnitude | minus text number hmagnitude =>
        rw [splitSign, hmagnitude.magnitude?]
        rfl

/-- What is read is a literal of that number, and every literal is read. -/
theorem number?_eq_some_iff {text : List Char} {number : Int} :
    number? text = some number ↔ IsLiteral text number := by
  rw [number?_eq, signedNumber?_eq_some_iff]
  constructor
  · intro h
    obtain ⟨before, after, hbefore, hafter, htext⟩ := exists_trim text
    exact ⟨before, trim text, after, htext, hbefore, hafter, h⟩
  · rintro ⟨before, body, after, rfl, hbefore, hafter, hbody⟩
    obtain ⟨hne, hblank⟩ := hbody.characters
    obtain ⟨hbegin, hend⟩ := beginsWith_of_forall hblank
    rwa [trim_between hbefore hafter hne hbegin hend]

/-! ## Written numbers -/

/-- Digits alone are separated. -/
theorem isSeparated_self {digits : List Char} (h : digits ≠ []) : IsSeparated digits digits :=
  ⟨[digits], by simp, by simpa using h, by simp, by simp⟩

/-- The core library writes the numeral of a number. -/
theorem isNumeral_toDigits {radix : Nat} (hone : 1 < radix) (hradix : radix ≤ 16) (number : Nat) :
    IsNumeral radix (Nat.toDigits radix number) number :=
  (isNumeral_iff hradix).mpr (digits?_toDigits radix number hone hradix)

/-- A numeral behind a radix mark is an unsigned literal. -/
theorem isMagnitude_marked {letter : Char} {radix : Nat} (h : (letter, radix) ∈ radixLetters)
    (number : Nat) : IsMagnitude ('0' :: letter :: Nat.toDigits radix number) number := by
  obtain ⟨hone, hradix, -⟩ := of_mem_radixLetters h
  exact .marked letter radix [] _ _ number h (Or.inl rfl) (isSeparated_self Nat.toDigits_ne_nil)
    (isNumeral_toDigits hone hradix number)

/-- A decimal numeral is an unsigned literal. -/
theorem isMagnitude_decimal (number : Nat) : IsMagnitude (Nat.toDigits 10 number) number := by
  refine .decimal _ _ number (isSeparated_self Nat.toDigits_ne_nil)
    (isNumeral_toDigits (by decide) (by decide) number) fun hhead ↦ ?_
  rw [eq_zero_of_head_toDigits (by decide) (by decide) hhead, Nat.toDigits_zero]
  exact List.forall_mem_singleton.mpr rfl

/-- The sign before the written form of a number: a minus sign if it is negative. -/
def signOf (number : Int) : List Char :=
  if number < 0 then ['-'] else []

/-- The magnitude of a number behind its sign is a signed literal of it. -/
theorem IsMagnitude.signed {text : List Char} {number : Int}
    (h : IsMagnitude text number.natAbs) : IsSigned (signOf number ++ text) number := by
  unfold signOf
  split
  next hnegative =>
    have hminus := IsSigned.minus text _ h
    rwa [show -(number.natAbs : Int) = number by omega] at hminus
  next hnegative =>
    have hplain := IsSigned.unsigned text _ h
    rwa [show (number.natAbs : Int) = number by omega] at hplain

/-- A signed literal is a literal. -/
theorem IsSigned.isLiteral {text : List Char} {number : Int} (h : IsSigned text number) :
    IsLiteral text number :=
  ⟨[], text, [], by simp, by simp, by simp, h⟩

/-! ## Leading zeros -/

variable {radix : Nat}

/-- Behind a digit it makes no difference whether an underscore is dropped first. -/
theorem furtherDigits?_eq_separatedDigits? {text : List Char} (h : text ≠ []) :
    furtherDigits? radix text = separatedDigits? radix (dropUnderscore text) := by
  unfold dropUnderscore
  split
  next rest =>
    cases rest with
    | nil => rfl
    | cons c rest => rw [furtherDigits?, separatedDigits?]
  next hmark =>
    obtain ⟨c, rest, rfl⟩ := List.exists_cons_of_ne_nil h
    rw [furtherDigits?, separatedDigits?]
    rintro d rest rfl rfl
    exact hmark _ rfl

/-- Zeros before digits are read as digits of value zero. -/
theorem furtherDigits?_zeros (hradix : 0 < radix) (count : Nat) (text : List Char) :
    furtherDigits? radix (List.replicate count '0' ++ text) =
      (furtherDigits? radix text).map (List.replicate count 0 ++ ·) := by
  have hzero : digitValue? radix '0' = some 0 := by
    simp [digitValue?, digitWeight?, hradix]
  induction count with
  | zero => simp
  | succ count ih =>
      rw [List.replicate_succ, List.cons_append, furtherDigits?, hzero, ih]
      · cases furtherDigits? radix text <;> rfl
      · rintro c rest ⟨⟩

/-- Zeros before digits do not change their number. -/
theorem valueOfDigits_zeros (count : Nat) (values : List Nat) :
    valueOfDigits radix (List.replicate count 0 ++ values) = valueOfDigits radix values := by
  induction count with
  | zero => rfl
  | succ count ih => simpa [valueOfDigits, List.replicate_succ] using ih

/-- Zeros behind a radix mark do not change what is read. -/
theorem magnitude?_zeros {letter : Char} (h : (letter, radix) ∈ radixLetters) (count : Nat)
    {digits : List Char} (hne : digits ≠ []) :
    magnitude? ('0' :: letter :: (List.replicate count '0' ++ digits)) =
      magnitude? ('0' :: letter :: digits) := by
  obtain ⟨hone, -, hten, -⟩ := of_mem_radixLetters h
  have hsplit : ∀ rest, splitRadix ('0' :: letter :: rest) = (radix, dropUnderscore rest) := by
    intro rest
    simp only [splitRadix, markedRadix?_eq_some_iff.mpr h]
  have hzeros : List.replicate count '0' ++ digits ≠ [] := by simp [hne]
  ext number
  rw [magnitude?_eq_some_iff (hsplit _),
    magnitude?_eq_some_iff (hsplit _), ← furtherDigits?_eq_separatedDigits? hzeros,
    ← furtherDigits?_eq_separatedDigits? hne, furtherDigits?_zeros (by omega)]
  simp [hten, valueOfDigits_zeros]

/-- Zeros behind a radix mark do not change the number of a literal. -/
theorem number?_zeros {sign : List Char} (hsign : sign = [] ∨ sign = ['+'] ∨ sign = ['-'])
    {letter : Char} (h : (letter, radix) ∈ radixLetters) (count : Nat) {digits : List Char}
    (hne : digits ≠ []) (hblank : ∀ c ∈ digits, isBlank c = false) :
    number? (sign ++ '0' :: letter :: (List.replicate count '0' ++ digits)) =
      number? (sign ++ '0' :: letter :: digits) := by
  obtain ⟨-, -, -, -, hletter⟩ := of_mem_radixLetters h
  have htrim : ∀ rest, (∀ c ∈ rest, isBlank c = false) →
      trim (sign ++ '0' :: letter :: rest) = sign ++ '0' :: letter :: rest := by
    intro rest hrest
    obtain ⟨hbegin, hend⟩ : beginsWith isBlank (sign ++ '0' :: letter :: rest) = false ∧
        beginsWith isBlank (sign ++ '0' :: letter :: rest).reverse = false := by
      refine beginsWith_of_forall (List.forall_mem_append.mpr ⟨?_, List.forall_mem_cons.mpr
        ⟨rfl, List.forall_mem_cons.mpr ⟨hletter, hrest⟩⟩⟩)
      rcases hsign with rfl | rfl | rfl
      · simp
      · exact List.forall_mem_singleton.mpr rfl
      · exact List.forall_mem_singleton.mpr rfl
    exact trim_eq_self hbegin hend
  have hzeros : ∀ c ∈ List.replicate count '0' ++ digits, isBlank c = false := by
    refine List.forall_mem_append.mpr ⟨fun c hc ↦ ?_, hblank⟩
    rw [List.eq_of_mem_replicate hc]
    rfl
  obtain ⟨negative, hsplit⟩ : ∃ negative, ∀ rest, splitSign (sign ++ '0' :: letter :: rest) =
      (negative, '0' :: letter :: rest) := by
    rcases hsign with rfl | rfl | rfl
    · exact ⟨false, fun _ ↦ rfl⟩
    · exact ⟨false, fun _ ↦ rfl⟩
    · exact ⟨true, fun _ ↦ rfl⟩
  rw [number?_eq, number?_eq, htrim _ hzeros, htrim _ hblank, signedNumber?, signedNumber?, hsplit,
    hsplit, magnitude?_zeros h count hne]

end ModelQuery.Literal

namespace ModelQuery.AttributeId

open Literal

/-! ## Identifiers -/

/-- A literal is read as the identifier with its number, if there is one. -/
theorem ofLiteral?_of_isLiteral {text : List Char} {number : Int} (h : IsLiteral text number) :
    ofLiteral? (String.ofList text) = ofInt? number := by
  rw [ofLiteral?, String.toList_ofList, number?_eq_some_iff.mpr h]
  rfl

/-- The identifiers that are read are the numbers of literals. -/
theorem ofLiteral?_eq_some_iff {text : String} {id : AttributeId} :
    ofLiteral? text = some id ↔ IsLiteral text.toList id.value := by
  rw [ofLiteral?, Option.bind_eq_bind, Option.bind_eq_some_iff]
  simp only [number?_eq_some_iff, ofInt?_eq_some_iff]
  exact ⟨fun ⟨_, h, heq⟩ ↦ heq ▸ h, fun h ↦ ⟨_, h, rfl⟩⟩

/-- No identifier exists for exactly the numbers outside the signed 64-bit range. -/
theorem ofInt?_eq_none_iff {number : Int} :
    ofInt? number = none ↔ number < -2 ^ 63 ∨ 2 ^ 63 ≤ number := by
  unfold ofInt?
  split
  next h => exact ⟨fun hnone ↦ (by cases hnone), fun hout ↦ by omega⟩
  next h => exact ⟨fun _ ↦ by omega, fun _ ↦ rfl⟩

end ModelQuery.AttributeId

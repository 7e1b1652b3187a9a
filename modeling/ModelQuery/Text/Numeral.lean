/-!
# Positional numerals

Numerals in a radix of at most sixteen: `digitValue?` reads one digit, in either letter case,
`valueOfDigits` is the number that a list of digit values stands for, and the core library's
`Nat.toDigits` writes one with small letters. The main theorem, `digits?_toDigits`, says that a
written numeral reads back as its number.
-/

namespace ModelQuery.Text

/-- The value of an ASCII digit or letter as a digit: letters stand for ten and more, in either
case. -/
def digitWeight? (c : Char) : Option Nat :=
  let code := c.toNat
  if 48 ≤ code ∧ code ≤ 57 then some (code - 48)
  else if 97 ≤ code ∧ code ≤ 122 then some (code - 87)
  else if 65 ≤ code ∧ code ≤ 90 then some (code - 55)
  else none

/-- The value of a character that is a digit of the radix. -/
def digitValue? (radix : Nat) (c : Char) : Option Nat :=
  (digitWeight? c).filter (· < radix)

/-- The values of a run of digits, or nothing if one character is not a digit of the radix. -/
def digits? (radix : Nat) (text : List Char) : Option (List Nat) :=
  text.mapM (digitValue? radix)

/-- The number whose digits in the radix, most significant first, have these values. -/
def valueOfDigits (radix : Nat) (digits : List Nat) : Nat :=
  digits.foldl (fun value digit ↦ value * radix + digit) 0

/-- Whether a numeral begins with a minus sign, and the numeral without its sign. -/
def splitSign : List Char → Bool × List Char
  | '-' :: rest => (true, rest)
  | '+' :: rest => (false, rest)
  | rest => (false, rest)

/-- The rest of a run of digits after its first one: each further digit may follow one
underscore. -/
def furtherDigits? (radix : Nat) : List Char → Option (List Nat)
  | [] => some []
  | '_' :: c :: rest => do
      let digit ← digitValue? radix c
      let digits ← furtherDigits? radix rest
      pure (digit :: digits)
  | c :: rest => do
      let digit ← digitValue? radix c
      let digits ← furtherDigits? radix rest
      pure (digit :: digits)

/-- The values of a run of at least one digit with single underscores between digits. -/
def separatedDigits? (radix : Nat) : List Char → Option (List Nat)
  | [] => none
  | c :: rest => do
      let digit ← digitValue? radix c
      let digits ← furtherDigits? radix rest
      pure (digit :: digits)

/-- A further digit multiplies the number by the radix and is added to it. -/
theorem valueOfDigits_concat (radix : Nat) (digits : List Nat) (digit : Nat) :
    valueOfDigits radix (digits ++ [digit]) = valueOfDigits radix digits * radix + digit := by
  simp [valueOfDigits]

/-- The character that the core library writes for a digit has the digit's value. -/
theorem digitValue?_digitChar (radix digit : Nat) (hradix : radix ≤ 16) (hdigit : digit < radix) :
    digitValue? radix digit.digitChar = some digit := by
  have hall : ∀ d : Fin 16, digitWeight? (Nat.digitChar d) = some d.val := by decide
  have hweight := hall ⟨digit, Nat.lt_of_lt_of_le hdigit hradix⟩
  simp only at hweight
  simp [digitValue?, hweight, hdigit]

/-- A written numeral consists of digits of its radix, and they stand for the number. -/
theorem digits?_toDigits (radix n : Nat) (hone : 1 < radix) (hradix : radix ≤ 16) :
    ∃ values, digits? radix (Nat.toDigits radix n) = some values ∧
      valueOfDigits radix values = n := by
  induction n using Nat.strongRecOn with
  | ind n ih =>
      by_cases hlt : n < radix
      · refine ⟨[n], ?_, by simp [valueOfDigits]⟩
        simp [Nat.toDigits_of_lt_base hlt, digits?, digitValue?_digitChar radix n hradix hlt]
      · have hle : radix ≤ n := Nat.le_of_not_lt hlt
        obtain ⟨values, hread, hvalue⟩ :=
          ih (n / radix) (Nat.div_lt_self (by omega) hone)
        refine ⟨values ++ [n % radix], ?_, ?_⟩
        · have hdigit : n % radix < radix := Nat.mod_lt n (by omega)
          rw [Nat.toDigits_of_base_le hone hle]
          simp only [digits?, List.mapM_append] at hread ⊢
          simp [hread, digitValue?_digitChar radix _ hradix hdigit]
        · rw [valueOfDigits_concat, hvalue, Nat.div_add_mod' n radix]

end ModelQuery.Text

import ModelQuery.Text.Numeral
import ModelQuery.Toml.Item

/-!
# Numbers, truth values, dates and times in TOML

A value that is not quoted and not bracketed is a word, or a date and a time with one space between
them. `Scalar.item?` tells what a word is, if it is anything.
-/

namespace ModelQuery.Toml.Scalar

open Text

/-- The number of a whole numeral without sign: zero alone, or digits that do not begin with zero.
-/
def wholeNumber? (text : List Char) : Option Nat := do
  let digits ← separatedDigits? 10 text
  if digits.head? == some 0 && digits.length != 1 then none else pure (valueOfDigits 10 digits)

/-- The number that an integer word stands for, of any size. A radix mark is written in small
letters and takes no sign. -/
def number? : List Char → Option Int
  | '0' :: 'x' :: digits => (separatedDigits? 16 digits).map fun values ↦ valueOfDigits 16 values
  | '0' :: 'o' :: digits => (separatedDigits? 8 digits).map fun values ↦ valueOfDigits 8 values
  | '0' :: 'b' :: digits => (separatedDigits? 2 digits).map fun values ↦ valueOfDigits 2 values
  | text =>
      let (negative, unsigned) := splitSign text
      (wholeNumber? unsigned).map fun magnitude ↦
        if negative then -(magnitude : Int) else magnitude

/-- The integer that a word stands for, if it fits into 64 bits with its sign. -/
def integer? (text : List Char) : Option Int :=
  (number? text).filter fun value ↦ -0x8000000000000000 ≤ value ∧ value < 0x8000000000000000

/-- The number with `digits` digits, times a power of ten, is less than the least number that double
precision rounds to infinity, 2 ^ 1024 - 2 ^ 970. Numbers of more than 310 places before the point
are out of range and those of at most 308 places are in it, so that no large power is computed. -/
def isFinite (mantissa digits : Nat) (exponent : Int) : Bool :=
  let places := digits + exponent
  if mantissa = 0 || places ≤ 308 then true
  else if 310 < places then false
  else mantissa * Nat.pow 10 exponent.toNat <
    (Nat.pow 2 1024 - Nat.pow 2 970) * Nat.pow 10 (-exponent).toNat

/-- The exponent that a word ends with: nothing at all, or the letter `e` in either case, a sign and
digits. -/
def exponent? : List Char → Option Int
  | [] => some 0
  | c :: rest =>
      if c == 'e' || c == 'E' then
        let (negative, unsigned) := splitSign rest
        (separatedDigits? 10 unsigned).map fun values ↦
          let magnitude : Int := valueOfDigits 10 values
          if negative then -magnitude else magnitude
      else none

/-- A character that a run of digits may have. -/
def isDigitOrUnderscore (c : Char) : Bool :=
  c.isDigit || c == '_'

/-- The digits after the point with which the text begins, if it begins with one, and the text after
them. -/
def fraction? : List Char → Option (List Nat × List Char)
  | '.' :: rest =>
      (separatedDigits? 10 (rest.takeWhile isDigitOrUnderscore)).map fun values ↦
        (values, rest.dropWhile isDigitOrUnderscore)
  | rest => some ([], rest)

/-- The word is a number with a fraction or an exponent, an infinity, or not a number. A positive
number must not be too large for double precision. -/
def isFloat (text : List Char) : Bool :=
  let (negative, unsigned) := splitSign text
  if unsigned == ['i', 'n', 'f'] || unsigned == ['n', 'a', 'n'] then true
  else
    let whole := unsigned.takeWhile isDigitOrUnderscore
    let rest := unsigned.dropWhile isDigitOrUnderscore
    match separatedDigits? 10 whole, wholeNumber? whole, fraction? rest with
    | some wholeDigits, some _, some (fractionDigits, ending) =>
        match exponent? ending with
        | some exponent =>
            let digits := (wholeDigits ++ fractionDigits).dropWhile (· == 0)
            !rest.isEmpty && (negative ||
              isFinite (valueOfDigits 10 digits) digits.length (exponent - fractionDigits.length))
        | none => false
    | _, _, _ => false

/-- The number that exactly `width` decimal digits stand for, and the text after them. -/
def fixedNumber? (width : Nat) (text : List Char) : Option (Nat × List Char) := do
  let digits := text.take width
  if digits.length = width then
    let values ← digits? 10 digits
    pure (valueOfDigits 10 values, text.drop width)
  else none

/-- The number of days of a month, or zero if there is no such month. -/
def daysOfMonth (year month : Nat) : Nat :=
  if month = 2 then
    if year % 4 = 0 ∧ (year % 100 ≠ 0 ∨ year % 400 = 0) then 29 else 28
  else if month ∈ [4, 6, 9, 11] then 30
  else if 1 ≤ month ∧ month ≤ 12 then 31
  else 0

/-- The text after a date with which the text begins. -/
def afterDate? (text : List Char) : Option (List Char) := do
  let (year, rest) ← fixedNumber? 4 text
  let '-' :: rest := rest | none
  let (month, rest) ← fixedNumber? 2 rest
  let '-' :: rest := rest | none
  let (day, rest) ← fixedNumber? 2 rest
  if 1 ≤ day ∧ day ≤ daysOfMonth year month then pure rest else none

/-- The text after an hour and a minute with which the text begins. -/
def afterMinute? (text : List Char) : Option (List Char) := do
  let (hour, rest) ← fixedNumber? 2 text
  let ':' :: rest := rest | none
  let (minute, rest) ← fixedNumber? 2 rest
  if hour ≤ 23 ∧ minute ≤ 59 then pure rest else none

/-- The text after a time of day with which the text begins. Seconds are required, the sixtieth is
allowed, and they may have a fraction. -/
def afterTime? (text : List Char) : Option (List Char) := do
  let ':' :: rest ← afterMinute? text | none
  let (second, rest) ← fixedNumber? 2 rest
  if 60 < second then none
  else
    match rest with
    | '.' :: c :: rest =>
        if c.isDigit then pure (rest.dropWhile Char.isDigit) else none
    | '.' :: [] => none
    | rest => pure rest

/-- The text is an offset from universal time, or empty. -/
def isOffset : List Char → Bool
  | [] => true
  | ['Z'] | ['z'] => true
  | '+' :: rest | '-' :: rest => afterMinute? rest == some []
  | _ => false

/-- The word is a date and nothing else. -/
def isDate (text : List Char) : Bool :=
  afterDate? text == some []

/-- The word is a time of day and nothing else. -/
def isTime (text : List Char) : Bool :=
  afterTime? text == some []

/-- The word is a time of day, with or without an offset. -/
def isOffsetTime (text : List Char) : Bool :=
  match afterTime? text with
  | some rest => isOffset rest
  | none => false

/-- The word is a date, a time, or a date and a time with the letter `T` between them. -/
def isMoment (text : List Char) : Bool :=
  isDate text || isTime text ||
    match afterDate? text with
    | some (c :: rest) => (c == 'T' || c == 't') && isOffsetTime rest
    | _ => false

/-- What the word is. -/
def item? (word : List Char) : Option Item :=
  if word == ['t', 'r', 'u', 'e'] then some (.boolean true)
  else if word == ['f', 'a', 'l', 's', 'e'] then some (.boolean false)
  else if isMoment word then some .moment
  else if isFloat word then some .float
  else (integer? word).map .integer

/-- A character that ends a word. -/
def endsWord (c : Char) : Bool :=
  c == ' ' || c == '\t' || c == '\n' || c == '#' || c == ',' || c == ']' || c == '\x7d'

/-- Reads a word, or a date and a time with a space between them. -/
def read? (text : List Char) : Option (Item × List Char) :=
  let word := text.takeWhile (!endsWord ·)
  let rest := text.dropWhile (!endsWord ·)
  let clock := (rest.drop 1).takeWhile (!endsWord ·)
  if isDate word && rest.head? == some ' ' && !clock.isEmpty then
    if isOffsetTime clock then some (.moment, (rest.drop 1).dropWhile (!endsWord ·)) else none
  else (item? word).map fun item ↦ (item, rest)

end ModelQuery.Toml.Scalar

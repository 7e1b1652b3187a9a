import ModelQuery.Attribute.WordLiteral
import ModelQuery.Proofs.Attribute.Literal
import ModelQuery.Text.Offset

/-!
# Literals read in bytes and words

Reading a literal in bytes and words gives what `AttributeId.ofLiteral?` gives. Every cut is made
where a character ends, since it follows one or two characters of one byte; a magnitude that has no
room in a word of 128 bits is outside the range of identifiers anyway; and every other magnitude has
room with either sign. `read_eq` puts these facts together, and `ofLiteral?_exact` says which texts
are read as which identifiers.
-/

namespace ModelQuery.Literal.Words

open Text

/-! ## Bytes -/

/-- A text is cut into two parts that make it up, and the first is as long as the offset. -/
theorem cut?_eq_some_iff {offset : Nat} {text before after : List Char} :
    cut? offset text = some (before, after) ↔
      text = before ++ after ∧ byteLength before = offset := by
  fun_induction cut? offset text generalizing before after with
  | case1 text =>
      constructor
      · rintro ⟨⟩
        exact ⟨rfl, rfl⟩
      · rintro ⟨rfl, hlength⟩
        cases before with
        | nil => rfl
        | cons c before =>
            have hpos := c.utf8Size_pos
            rw [byteLength] at hlength
            omega
  | case2 offset =>
      refine ⟨fun h ↦ (by cases h), ?_⟩
      rintro ⟨htext, hlength⟩
      obtain ⟨rfl, -⟩ := List.append_eq_nil_iff.mp htext.symm
      cases hlength
  | case3 offset c rest hsize ih =>
      simp only [Option.map_eq_some_iff, Prod.exists, Prod.mk.injEq]
      constructor
      · rintro ⟨before, after, hcut, rfl, rfl⟩
        obtain ⟨rfl, hlength⟩ := ih.mp hcut
        refine ⟨rfl, ?_⟩
        rw [byteLength]
        omega
      · rintro ⟨htext, hlength⟩
        cases before with
        | nil => cases hlength
        | cons d before =>
            obtain ⟨rfl, rfl⟩ := List.cons.inj htext
            rw [byteLength] at hlength
            exact ⟨before, after, ih.mpr ⟨rfl, by omega⟩, rfl, rfl⟩
  | case4 offset c rest hsize =>
      refine ⟨fun h ↦ (by cases h), ?_⟩
      rintro ⟨htext, hlength⟩
      cases before with
      | nil => cases hlength
      | cons d before =>
          obtain ⟨rfl, rfl⟩ := List.cons.inj htext
          rw [byteLength] at hlength
          omega

/-- Behind a part of the text a character ends. -/
theorem behind_append (before after : List Char) :
    behind (byteLength before) (before ++ after) = .ok after := by
  rw [behind, cut?_eq_some_iff.mpr ⟨rfl, rfl⟩]

/-- The first byte of a character is its code if it is an ASCII character, and no such code
otherwise. -/
theorem head?_utf8EncodeChar (c : Char) :
    ∃ code < 256, (String.utf8EncodeChar c).head? = some (UInt8.ofNat code) ∧
      ∀ mark < 128, code = mark ↔ c.toNat = mark := by
  have hcode : c.val.toNat = c.toNat := rfl
  have hrange : c.toNat < 0x110000 := by
    have hvalid := c.valid
    simp only [UInt32.isValidChar, Nat.isValidChar] at hvalid
    omega
  unfold String.utf8EncodeChar
  simp only [hcode]
  split
  next => exact ⟨_, by omega, rfl, by omega⟩
  next =>
    split
    next => exact ⟨_, by omega, rfl, by omega⟩
    next =>
      split
      next => exact ⟨_, by omega, rfl, by omega⟩
      next => exact ⟨_, by omega, rfl, by omega⟩

/-- The first byte of a text is that of an ASCII character if the text begins with it, and only
then. -/
theorem firstByte?_cons (c : Char) (rest : List Char) :
    ∃ byte, firstByte? (c :: rest) = some byte ∧
      ∀ mark : Char, mark.toNat < 128 → (byte = UInt8.ofNat mark.toNat ↔ c = mark) := by
  obtain ⟨code, hbound, hhead, hsame⟩ := head?_utf8EncodeChar c
  refine ⟨_, hhead, fun mark hmark ↦ ?_⟩
  rw [← Char.toNat_inj, ← hsame mark.toNat hmark, ← UInt8.toNat_inj, UInt8.toNat_ofNat',
    UInt8.toNat_ofNat', Nat.mod_eq_of_lt hbound, Nat.mod_eq_of_lt (by omega)]

/-- Splitting off the sign at the first byte is splitting off a first character. -/
theorem splitSign_eq (text : List Char) :
    splitSign text = .ok (if text = [] then none else some (Text.splitSign text)) := by
  cases text with
  | nil => rfl
  | cons c rest =>
      obtain ⟨byte, hfirst, hmark⟩ := firstByte?_cons c rest
      have hminus : byte = 0x2D ↔ c = '-' := hmark '-' (by decide)
      have hplus : byte = 0x2B ↔ c = '+' := hmark '+' (by decide)
      rw [splitSign, hfirst]
      simp only [hminus, hplus, reduceCtorEq, if_false]
      split
      next h =>
        rw [h]
        exact congrArg _ (behind_append ['-'] rest)
      next hnotminus =>
        split
        next h =>
          rw [h]
          exact congrArg _ (behind_append ['+'] rest)
        next hnotplus =>
          rw [Text.splitSign]
          · exact fun _ heq ↦ hnotminus (List.cons.inj heq).1
          · exact fun _ heq ↦ hnotplus (List.cons.inj heq).1

/-! ## Radix marks -/

/-- A radix mark is a zero and one of the letters of the marks. -/
theorem find?_marks_eq_some_iff {mark small : List Char} {radix : Nat} :
    marks.find? (·.1 == fold mark) = some (small, radix) ↔
      small = fold mark ∧ ∃ letter, mark = ['0', letter] ∧
        Literal.markedRadix? letter = some radix := by
  constructor
  · intro hfind
    have hsmall : small = fold mark := by simpa using List.find?_some hfind
    refine ⟨hsmall, ?_⟩
    have hmem := List.mem_of_find?_eq_some hfind
    obtain ⟨x, hx, rfl⟩ : ∃ x, (x = 'x' ∧ radix = 16 ∨ x = 'o' ∧ radix = 8 ∨
        x = 'b' ∧ radix = 2) ∧ small = ['0', x] := by
      simp only [marks, List.mem_cons, Prod.mk.injEq, List.not_mem_nil, or_false] at hmem
      rcases hmem with ⟨rfl, rfl⟩ | ⟨rfl, rfl⟩ | ⟨rfl, rfl⟩ <;> simp
    obtain ⟨zero, letter, rfl, hzero, hletter⟩ : ∃ zero letter, mark = [zero, letter] ∧
        zero.toLower = '0' ∧ letter.toLower = x := by
      simpa [fold, eq_comm, List.map_eq_cons_iff, and_assoc] using hsmall
    refine ⟨letter, by rw [(toLower_eq_mark_iff (by decide) (by decide)).mp hzero], ?_⟩
    rw [Literal.markedRadix?, hletter]
    rcases hx with ⟨rfl, rfl⟩ | ⟨rfl, rfl⟩ | ⟨rfl, rfl⟩ <;> rfl
  · rintro ⟨rfl, letter, rfl, hletter⟩
    have hmem := markedRadix?_eq_some_iff.mp hletter
    simp only [radixLetters, List.mem_cons, List.not_mem_nil, or_false, Prod.mk.injEq] at hmem
    rcases hmem with ⟨rfl, rfl⟩ | ⟨rfl, rfl⟩ | ⟨rfl, rfl⟩ | ⟨rfl, rfl⟩ | ⟨rfl, rfl⟩ |
      ⟨rfl, rfl⟩ <;> decide

/-- The two characters of a radix mark are two bytes. -/
theorem byteLength_mark {letter : Char} {radix : Nat}
    (h : Literal.markedRadix? letter = some radix) : byteLength ['0', letter] = 2 := by
  have hmem := markedRadix?_eq_some_iff.mp h
  simp only [radixLetters, List.mem_cons, List.not_mem_nil, or_false, Prod.mk.injEq] at hmem
  rcases hmem with ⟨rfl, rfl⟩ | ⟨rfl, rfl⟩ | ⟨rfl, rfl⟩ | ⟨rfl, rfl⟩ | ⟨rfl, rfl⟩ |
    ⟨rfl, rfl⟩ <;> rfl

/-- The first two bytes are a radix mark if the first two characters are one. -/
theorem markedRadix?_eq_some_iff {text : List Char} {radix : Nat} :
    markedRadix? text = some radix ↔ ∃ letter rest, text = '0' :: letter :: rest ∧
      Literal.markedRadix? letter = some radix := by
  simp only [markedRadix?, Option.bind_eq_bind, Option.bind_eq_some_iff, Prod.exists,
    cut?_eq_some_iff, find?_marks_eq_some_iff, Option.pure_def, Option.some.injEq]
  constructor
  · rintro ⟨_, rest, ⟨rfl, -⟩, _, _, ⟨-, letter, rfl, hletter⟩, rfl⟩
    exact ⟨letter, rest, rfl, hletter⟩
  · rintro ⟨letter, rest, rfl, hletter⟩
    exact ⟨_, rest, ⟨rfl, byteLength_mark hletter⟩, _, _, ⟨rfl, letter, rfl, hletter⟩, rfl⟩

/-- Behind a radix mark the digits begin, and an underscore before them is still to be dropped. -/
theorem splitRadix_eq (text : List Char) :
    ∃ radix digits, 0 < radix ∧ splitRadix text = .ok (radix, digits) ∧
      Literal.splitRadix text = (radix, if radix = 10 then digits else dropUnderscore digits) := by
  rcases splitRadix_cases text with ⟨letter, radix, rest, rfl, hletter, hsplit⟩ | ⟨hnone, hsplit⟩
  · obtain ⟨hone, -, hten, -⟩ := of_mem_radixLetters hletter
    have hmark := Literal.markedRadix?_eq_some_iff.mpr hletter
    refine ⟨radix, rest, by omega, ?_, by rw [hsplit, if_neg hten]⟩
    have hbehind : behind 2 ('0' :: letter :: rest) = .ok rest :=
      byteLength_mark hmark ▸ behind_append ['0', letter] rest
    rw [splitRadix, markedRadix?_eq_some_iff.mpr ⟨letter, rest, rfl, hmark⟩]
    simp only [hbehind]
    rfl
  · refine ⟨10, text, by decide, ?_, hsplit⟩
    have hmark : markedRadix? text = none := by
      refine Option.eq_none_iff_forall_ne_some.mpr fun radix h ↦ ?_
      obtain ⟨letter, rest, htext, hletter⟩ := markedRadix?_eq_some_iff.mp h
      rw [hnone letter rest htext] at hletter
      cases hletter
    rw [splitRadix, hmark]

/-! ## Underscores -/

/-- Two characters that are no underscores may stand side by side. -/
theorem isSeparated_cons {c d : Char} (hc : c ≠ '_') (hd : d ≠ '_') (rest : List Char) :
    isSeparated (c :: d :: rest) = isSeparated (d :: rest) := by
  simp [isSeparated, beq_eq_false_iff_ne.mpr hc, beq_eq_false_iff_ne.mpr hd, hc.symm]

/-- An underscore may stand between two other characters. -/
theorem isSeparated_underscore {c d : Char} (hc : c ≠ '_') (hd : d ≠ '_') (rest : List Char) :
    isSeparated (c :: '_' :: d :: rest) = isSeparated (d :: rest) := by
  simp [isSeparated, beq_eq_false_iff_ne.mpr hc, beq_eq_false_iff_ne.mpr hd, hc.symm, hd.symm]

/-- The values of digits that are read once their underscores are found to be in place. -/
def separated? (radix : Nat) (digits : List Char) : Option (List Nat) :=
  if isSeparated digits then digits? radix (digits.filter (· != '_')) else none

/-- Behind a digit, checking the underscores and leaving them out is reading digit by digit. -/
theorem furtherDigits?_eq {radix : Nat} {c : Char} (hc : c ≠ '_') (text : List Char) :
    (if isSeparated (c :: text) then digits? radix (text.filter (· != '_')) else none) =
      furtherDigits? radix text := by
  fun_induction furtherDigits? radix text generalizing c with
  | case1 => simp [isSeparated, hc, digits?]
  | case2 d rest ih =>
      by_cases hd : d = '_'
      · subst hd
        simp [isSeparated, digitValue?_underscore]
      · rw [isSeparated_underscore hc hd, ← ih hd]
        cases isSeparated (d :: rest) <;> simp [digits?, hd]
  | case3 d rest hmark ih =>
      by_cases hd : d = '_'
      · -- the underscore stands last
        subst hd
        cases rest with
        | nil => simp [isSeparated, digitValue?_underscore]
        | cons e rest => exact absurd rfl (hmark e rest rfl)
      · rw [isSeparated_cons hc hd, ← ih hd]
        cases isSeparated (d :: rest) <;> simp [digits?, hd]

/-- Checking the underscores and leaving them out is reading digit by digit. -/
theorem separated?_eq (radix : Nat) (text : List Char) :
    separated? radix text = separatedDigits? radix text := by
  cases text with
  | nil => rfl
  | cons c rest =>
      by_cases hc : c = '_'
      · subst hc
        simp [separated?, isSeparated, separatedDigits?, digitValue?_underscore]
      · rw [separatedDigits?, ← furtherDigits?_eq hc, separated?]
        cases isSeparated (c :: rest) <;> simp [digits?, hc]

/-! ## Words -/

/-- Digits that follow do not make a number smaller. -/
theorem le_foldl_digits {radix : Nat} (hradix : 0 < radix) (digits : List Nat) (number : Nat) :
    number ≤ digits.foldl (fun value digit ↦ value * radix + digit) number := by
  induction digits generalizing number with
  | nil => exact Nat.le_refl number
  | cons digit digits ih =>
      calc number ≤ number * radix := Nat.le_mul_of_pos_right number hradix
        _ ≤ number * radix + digit := Nat.le_add_right _ _
        _ ≤ _ := ih _

/-- Digits are added up in a word exactly if it has room for their number. -/
theorem accumulate?_eq {radix : Nat} (hradix : 0 < radix) (digits : List Nat) {word : Nat}
    (hword : word < wordBound) : accumulate? radix word digits =
      fit? (digits.foldl (fun value digit ↦ value * radix + digit) word) := by
  induction digits generalizing word with
  | nil => rw [accumulate?, List.foldl_nil, fit?, if_pos hword]
  | cons digit digits ih =>
      rw [accumulate?, List.foldl_cons]
      by_cases hsum : word * radix + digit < wordBound
      · have hproduct : word * radix < wordBound := by omega
        simp only [fit?, if_pos hproduct, if_pos hsum, Option.bind_eq_bind, Option.bind_some]
        exact ih hsum
      · -- what does not fit does not fit with more digits behind it either
        have hle := le_foldl_digits hradix digits (word * radix + digit)
        have hnot : ¬ digits.foldl (fun value digit ↦ value * radix + digit)
            (word * radix + digit) < wordBound := by omega
        simp only [fit?, if_neg hnot, Option.bind_eq_bind]
        split
        next => rw [Option.bind_some, if_neg hsum, Option.bind_none]
        next => rfl

/-- The number of a run of digits is added up exactly if a word has room for it. -/
theorem accumulate?_zero {radix : Nat} (hradix : 0 < radix) (digits : List Nat) :
    accumulate? radix 0 digits = fit? (valueOfDigits radix digits) :=
  accumulate?_eq hradix digits (by decide)

/-- Decimal digits have a leading zero where one is found among their values. -/
theorem hasLeadingZero_eq {digits : List Char} {values : List Nat}
    (h : digits? 10 digits = some values) : hasLeadingZero digits = !hasNoLeadingZero values := by
  have hleading : hasLeadingZero digits = true ↔
      ¬ (digits.head? = some '0' → ∀ c ∈ digits, c = '0') := by
    simp [hasLeadingZero]
  rw [Bool.eq_iff_iff, hleading, Bool.not_eq_true', ← Bool.not_eq_true, hasNoLeadingZero_iff h]

/-- The magnitude of a literal is read exactly if a word has room for it. -/
theorem magnitude?_eq {text digits : List Char} {radix : Nat} (hradix : 0 < radix)
    (hsplit : Literal.splitRadix text =
      (radix, if radix = 10 then digits else dropUnderscore digits)) :
    magnitude? radix digits = (Literal.magnitude? text).bind fit? := by
  rw [magnitude?, Literal.magnitude?, hsplit]
  generalize (if radix = 10 then digits else dropUnderscore digits) = digits
  have hread := separated?_eq radix digits
  rw [separated?] at hread
  simp only [← hread]
  cases hseparated : isSeparated digits with
  | false => rfl
  | true =>
      rw [if_pos rfl, if_pos rfl]
      cases hvalues : digits? radix (digits.filter (· != '_')) with
      | none => simp
      | some values =>
          by_cases hten : radix = 10
          · subst hten
            simp only [hasLeadingZero_eq hvalues, accumulate?_zero hradix]
            cases hleading : hasNoLeadingZero values <;> simp [hleading]
          · simp [hten, accumulate?_zero hradix]

/-! ## Literals -/

/-- A number in a word has its sign turned without an overflow. -/
theorem negate_eq {magnitude : Nat} (h : magnitude < wordBound) :
    negate magnitude = .ok (-(magnitude : Int)) :=
  if_pos ⟨by omega, by omega⟩

/-- A magnitude that a word has no room for is none of an identifier. -/
theorem ofInt?_of_not_lt {number : Int} (h : ¬ number.natAbs < wordBound) :
    AttributeId.ofInt? number = none :=
  dif_neg fun hrange ↦ by
    unfold wordBound at h
    omega

/-- Reading in bytes and words never breaks down, and reads the same identifier. -/
theorem read_eq (text : String) : read text = .ok (AttributeId.ofLiteral? text) := by
  obtain ⟨radix, digits, hradix, hsplit, hliteral⟩ :=
    splitRadix_eq (Text.splitSign (trim text.toList)).2
  simp only [read, AttributeId.ofLiteral?, number?_eq, signedNumber?, splitSign_eq]
  by_cases hempty : trim text.toList = []
  · simp only [hempty]
    rfl
  · simp only [if_neg hempty, Except.bind, bind, hsplit, magnitude?_eq hradix hliteral]
    generalize (Text.splitSign (trim text.toList)).1 = negative
    cases Literal.magnitude? (Text.splitSign (trim text.toList)).2 with
    | none => rfl
    | some magnitude =>
        rw [Option.bind_some, Option.map_some, Option.bind_some, fit?]
        by_cases hfits : magnitude < wordBound
        · cases negative with
          | false => simp only [if_pos hfits]; rfl
          | true => simp only [if_pos hfits, negate_eq hfits]; rfl
        · have hnone : AttributeId.ofInt? (if negative then -(magnitude : Int) else magnitude) =
              none := by
            refine ofInt?_of_not_lt ?_
            split <;> simpa using hfits
          rw [if_neg hfits, hnone]
          rfl

end ModelQuery.Literal.Words

namespace ModelQuery.AttributeId

open Text Literal

/-- Integer literals are read exactly. A text is read as an identifier if it is a literal of its
number, and only then; a literal is none exactly if its number is outside the signed 64-bit range.
Every number may be written in decimal and behind every radix mark, where zeros before its digits do
not matter. A reader that cuts texts at byte offsets and adds digits up in words of 128 bits does
the same, and never breaks down. -/
theorem ofLiteral?_exact :
    (∀ (text : String) (id : AttributeId),
      ofLiteral? text = some id ↔ IsLiteral text.toList id.value) ∧
    (∀ (text : String) (number : Int), IsLiteral text.toList number →
      (ofLiteral? text = none ↔ number < -2 ^ 63 ∨ 2 ^ 63 ≤ number)) ∧
    (∀ number : Int, ofLiteral?
      (String.ofList (signOf number ++ Nat.toDigits 10 number.natAbs)) = ofInt? number) ∧
    (∀ (letter : Char) (radix : Nat), (letter, radix) ∈ radixLetters → ∀ number : Int, ofLiteral?
      (String.ofList (signOf number ++ '0' :: letter :: Nat.toDigits radix number.natAbs)) =
        ofInt? number) ∧
    (∀ (letter : Char) (radix : Nat), (letter, radix) ∈ radixLetters →
      ∀ (sign digits : List Char) (count : Nat), sign = [] ∨ sign = ['+'] ∨ sign = ['-'] →
        digits ≠ [] → (∀ c ∈ digits, isBlank c = false) →
        ofLiteral?
          (String.ofList (sign ++ '0' :: letter :: (List.replicate count '0' ++ digits))) =
          ofLiteral? (String.ofList (sign ++ '0' :: letter :: digits))) ∧
    ∀ text : String, Words.read text = .ok (ofLiteral? text) := by
  refine ⟨fun text id ↦ ofLiteral?_eq_some_iff, fun text number h ↦ ?_, fun number ↦ ?_,
    fun letter radix hletter number ↦ ?_,
    fun letter radix hletter sign digits count hsign hne hblank ↦ ?_, Words.read_eq⟩
  · have hread := ofLiteral?_of_isLiteral h
    rw [String.ofList_toList] at hread
    rw [hread, ofInt?_eq_none_iff]
  · exact ofLiteral?_of_isLiteral (isMagnitude_decimal _).signed.isLiteral
  · exact ofLiteral?_of_isLiteral (isMagnitude_marked hletter _).signed.isLiteral
  · simp only [ofLiteral?, String.toList_ofList, number?_zeros hsign hletter count hne hblank]

/-- The least number is read in hexadecimal, and its negative, which is a literal too, is not. Zeros
make no difference in binary. -/
theorem ofLiteral?_exact_least :
    (∃ id, ofLiteral? "-0x8000000000000000" = some id ∧ id.value = -2 ^ 63) ∧
      ofLiteral? "0x8000000000000000" = none ∧
      ofLiteral? "+0B00000010_1" = ofLiteral? "+0B10_1" := by
  have hmark : ('x', 16) ∈ radixLetters := by decide
  refine ⟨⟨⟨-2 ^ 63, by decide, by decide⟩, ?_, rfl⟩, ?_, ?_⟩
  · have hwritten : String.ofList
        (signOf (-2 ^ 63) ++ '0' :: 'x' :: Nat.toDigits 16 (-2 ^ 63 : Int).natAbs) =
          "-0x8000000000000000" := by decide +kernel
    rw [← hwritten, ofLiteral?_exact.2.2.2.1 'x' 16 hmark]
    rfl
  · have hwritten : "0x8000000000000000".toList =
        signOf (2 ^ 63) ++ '0' :: 'x' :: Nat.toDigits 16 (2 ^ 63 : Int).natAbs := by
      decide +kernel
    have hliteral : IsLiteral "0x8000000000000000".toList (2 ^ 63) := by
      rw [hwritten]
      exact (isMagnitude_marked hmark _).signed.isLiteral
    exact (ofLiteral?_exact.2.1 _ _ hliteral).mpr (Or.inr (by decide))
  · have hall : "10_1".toList.all (!isBlank ·) = true := by decide
    exact ofLiteral?_exact.2.2.2.2.1 'B' 2 (by decide) ['+'] "10_1".toList 6 (by decide) (by decide)
      fun c hc ↦ by simpa using List.all_eq_true.mp hall c hc

end ModelQuery.AttributeId

import ModelQuery.Proofs.Expression.Layout

/-!
# Scanners and classes of tokens

Each kind of token has one scanner, and the three lemmas about them hold of every kind: what a
scanner reads is a token of its kind (`scanner_sound`), a scanner that reads nothing has no such
token before it (`scanner_none`), and a token is read to its end wherever the text behind it does
not continue it (`scanner_append`).
-/

namespace ModelQuery.Token

open Text Expression

/-- A run that is read consists of characters of the class, at least one. -/
theorem run_sound {accepts : Char → Bool} {text token rest : List Char}
    (h : run accepts text = some (token, rest)) :
    token ≠ [] ∧ ∀ c ∈ token, accepts c = true := by
  cases text with
  | nil => simp [run] at h
  | cons c text =>
      simp only [run] at h
      split at h
      next hc =>
        cases h
        refine ⟨List.cons_ne_nil _ _, ?_⟩
        intro d hd
        rcases List.mem_cons.mp hd with rfl | hd
        · exact hc
        · exact of_mem_takeWhile d hd
      next => exact absurd h (by simp)

/-- Where no run is read, none begins. -/
theorem run_none {accepts : Char → Bool} {text : List Char} (h : run accepts text = none) :
    beginsWith accepts text = false := by
  cases text with
  | nil => rfl
  | cons c text =>
      simp only [run] at h
      split at h
      next => exact absurd h (by simp)
      next hc => simpa using hc

/-- Behind a run that is read stands no further character of the class. -/
theorem run_ends {accepts : Char → Bool} {text token rest : List Char}
    (h : run accepts text = some (token, rest)) : beginsWith accepts rest = false := by
  cases text with
  | nil => simp [run] at h
  | cons c text =>
      simp only [run] at h
      split at h
      next => cases h; exact beginsWith_dropWhile _ _
      next => exact absurd h (by simp)

/-- A run is read to its end. -/
theorem run_append {accepts : Char → Bool} {token rest : List Char} (hne : token ≠ [])
    (hall : ∀ c ∈ token, accepts c = true) (hrest : beginsWith accepts rest = false) :
    run accepts (token ++ rest) = some (token, rest) := by
  cases token with
  | nil => exact absurd rfl hne
  | cons c token =>
      obtain ⟨hc, htail⟩ := List.forall_mem_cons.mp hall
      rw [List.cons_append, run, if_pos hc, takeWhile_run htail hrest, dropWhile_run htail hrest]

/-- A quoted value that is read has no quote of its kind inside. -/
theorem quoted_sound {quote : Char} {text token rest : List Char}
    (h : quoted quote text = some (token, rest)) : IsQuoted quote token := by
  cases text with
  | nil => simp [quoted] at h
  | cons c text =>
      simp only [quoted] at h
      split at h
      next hc =>
        split at h
        next => exact absurd h (by simp)
        next close following hdrop =>
          cases h
          have hclose : close = quote := by
            have hbegin := beginsWith_dropWhile (· != quote) text
            rw [hdrop, beginsWith_cons] at hbegin
            simpa using hbegin
          refine ⟨text.takeWhile (· != quote), ?_, by simp [hc, hclose]⟩
          intro hmem
          simpa using of_mem_takeWhile quote hmem
      next => exact absurd h (by simp)

/-- A quoted value is read up to its closing quote. -/
theorem quoted_append {quote : Char} {token rest : List Char} (h : IsQuoted quote token) :
    quoted quote (token ++ rest) = some (token, rest) := by
  obtain ⟨body, hbody, rfl⟩ := h
  have hrun : ∀ c ∈ body, (c != quote) = true := by
    intro c hc
    simpa using fun h : c = quote ↦ hbody (h ▸ hc)
  have hstop : beginsWith (· != quote) (quote :: rest) = false := by simp
  rw [List.cons_append, List.append_assoc, List.singleton_append, quoted, if_pos rfl,
    takeWhile_run hrun hstop, dropWhile_run hrun hstop]
  rfl

/-- A keyword that is read is one. -/
theorem keyword_sound {text token rest : List Char} (h : keyword text = some (token, rest)) :
    IsKeyword token := by
  obtain ⟨combinator, hmem, hs⟩ := List.exists_of_findSome?_eq_some h
  refine ⟨combinator, hmem, ?_⟩
  rw [(Text.stripWord_append _ _ _ _ hs).2]
  cases combinator <;> decide

/-- A word is read in every spelling of it. -/
theorem stripWord_fold (word token rest : List Char) (h : fold token = fold word) :
    stripWord word (token ++ rest) = some (token, rest) := by
  induction word generalizing token with
  | nil =>
      obtain rfl : token = [] := by simpa [fold] using h
      rfl
  | cons w word ih =>
      cases token with
      | nil => simp [fold] at h
      | cons c token =>
          simp only [fold, List.map_cons, List.cons.injEq] at h
          rw [List.cons_append, stripWord, if_pos h.1.symm, ih token h.2]
          rfl

/-- A keyword is read in every spelling, whatever follows it. -/
theorem keyword_append {token : List Char} (h : IsKeyword token) (rest : List Char) :
    keyword (token ++ rest) = some (token, rest) := by
  obtain ⟨combinator, hmem, hfold⟩ := id h
  have hstrip : stripWord combinator.keyword.toList (token ++ rest) = some (token, rest) := by
    refine stripWord_fold _ _ _ ?_
    rw [hfold]
    cases combinator <;> decide
  cases hread : keyword (token ++ rest) with
  | none =>
      have := List.findSome?_eq_none_iff.mp hread combinator hmem
      rw [hstrip] at this
      exact absurd this (by simp)
  | some result =>
      obtain ⟨other, following⟩ := result
      -- another keyword that fits would begin this one or be begun by it
      have hother := keyword_sound hread
      have hsplit := keyword_lossless _ _ _ hread
      rcases List.append_eq_append_iff.mp hsplit with ⟨more, rfl, rfl⟩ | ⟨more, rfl, rfl⟩
      · obtain rfl := eq_nil_of_isKeyword_append h hother
        simp
      · obtain rfl := eq_nil_of_isKeyword_append hother h
        simp

/-- Where no keyword is read, none stands. -/
theorem keyword_none {text : List Char} (h : keyword text = none) (token rest : List Char)
    (htoken : IsKeyword token) : text ≠ token ++ rest := by
  rintro rfl
  rw [keyword_append htoken rest] at h
  exact absurd h (by simp)

/-- A symbol that is read is one. -/
theorem operator_sound {text token rest : List Char} (h : operator text = some (token, rest)) :
    IsSymbol token := by
  obtain ⟨candidate, -, hs⟩ := List.exists_of_findSome?_eq_some h
  simp only at hs
  split at hs
  next =>
    cases hs
    exact ⟨candidate, Operator.mem_all candidate, rfl⟩
  next => exact absurd hs (by simp)

/-- Where no symbol is read, none stands. -/
theorem operator_none {text : List Char} (h : operator text = none) (token rest : List Char)
    (htoken : IsSymbol token) : text ≠ token ++ rest := by
  rintro rfl
  obtain ⟨candidate, -, rfl⟩ := htoken
  have := List.findSome?_eq_none_iff.mp h candidate (Operator.mem_readingOrder candidate)
  simp only at this
  rw [if_pos (List.isPrefixOf_iff_prefix.mpr (List.prefix_append _ _))] at this
  exact absurd this (by simp)

/-- A symbol is read whole where the text behind it does not make it a longer one. -/
theorem operator_append {token rest : List Char} (h : IsSymbol token)
    (hrest : beginsWith continuesSymbol rest = false) :
    operator (token ++ rest) = some (token, rest) := by
  obtain ⟨found, -, rfl⟩ := h
  cases rest with
  | nil => cases found <;> decide
  | cons c rest =>
      simp only [beginsWith_cons, continuesSymbol, Bool.or_eq_false_iff, beq_eq_false_iff_ne,
        ne_eq] at hrest
      obtain ⟨⟨heq, htilde⟩, hdollar⟩ := hrest
      -- a longer symbol is tried first, and fails at the character behind the shorter one
      cases found <;>
        simp [operator, Operator.readingOrder, Operator.symbol, Ne.symm heq,
          Ne.symm htilde, Ne.symm hdollar]

end ModelQuery.Token

namespace ModelQuery.Construct

open Text Expression

/-- The scanner of the kind of token; a construct that consists of several tokens has none. -/
def scanner : Construct → Token.Scanner
  | attributeName => Token.attributeName
  | keyword => Token.keyword
  | openParenthesis => Token.character '('
  | closeParenthesis => Token.character ')'
  | comma => Token.character ','
  | operator => Token.operator
  | singleQuoted => Token.quoted '\''
  | doubleQuoted => Token.quoted '"'
  | bareWord => Token.bareWord
  | endOfText => Token.endOfText
  | whole | group | members | condition => fun _ ↦ none

/-- The character, behind a token of the kind, would belong to the token. -/
def continues : Construct → Char → Bool
  | attributeName => Token.isNameCharacter
  | bareWord => Token.isWordCharacter
  | operator => Token.continuesSymbol
  | endOfText => fun _ ↦ true
  | _ => fun _ ↦ false

/-- What the scanner of a kind reads is a token of the kind, and nothing of the text is lost. -/
theorem scanner_sound (kind : Construct) {text token rest : List Char}
    (h : kind.scanner text = some (token, rest)) : kind.IsToken token ∧ text = token ++ rest := by
  cases kind with
  | attributeName => exact ⟨Token.run_sound h, Token.run_lossless _ _ _ _ h⟩
  | bareWord => exact ⟨Token.run_sound h, Token.run_lossless _ _ _ _ h⟩
  | keyword => exact ⟨Token.keyword_sound h, Token.keyword_lossless _ _ _ h⟩
  | operator => exact ⟨Token.operator_sound h, Token.operator_lossless _ _ _ h⟩
  | singleQuoted => exact ⟨Token.quoted_sound h, Token.quoted_lossless _ _ _ _ h⟩
  | doubleQuoted => exact ⟨Token.quoted_sound h, Token.quoted_lossless _ _ _ _ h⟩
  | openParenthesis | closeParenthesis | comma =>
      refine ⟨?_, Token.character_lossless _ _ _ _ h⟩
      cases text with
      | nil => exact absurd h (by simp [scanner, Token.character])
      | cons c text =>
          simp only [scanner, Token.character] at h
          split at h
          next hc => cases h; exact congrArg (fun d ↦ [d]) hc
          next => exact absurd h (by simp)
  | endOfText =>
      cases text with
      | nil => cases h; exact ⟨rfl, rfl⟩
      | cons c text => exact absurd h (by simp [scanner, Token.endOfText])
  | whole | group | members | condition => exact absurd h (by simp [scanner])

/-- A token is read to its end where the text behind it does not continue it. -/
theorem scanner_append (kind : Construct) {token rest : List Char} (h : kind.IsToken token)
    (hrest : beginsWith kind.continues rest = false) :
    kind.scanner (token ++ rest) = some (token, rest) := by
  cases kind with
  | attributeName => exact Token.run_append h.1 h.2 hrest
  | bareWord => exact Token.run_append h.1 h.2 hrest
  | keyword => exact Token.keyword_append h rest
  | operator => exact Token.operator_append h hrest
  | singleQuoted => exact Token.quoted_append h
  | doubleQuoted => exact Token.quoted_append h
  | openParenthesis | closeParenthesis | comma =>
      obtain rfl := h
      simp [scanner, Token.character]
  | endOfText =>
      obtain rfl := h
      cases rest with
      | nil => rfl
      | cons c rest => exact absurd hrest (by simp [continues])
  | whole | group | members | condition => exact h.elim

/-- A scanner that reads nothing has no token of its kind before it. -/
theorem scanner_none (kind : Construct) {text : List Char} (h : kind.scanner text = none) :
    ¬ kind.StandsAt text := by
  cases kind with
  | attributeName | bareWord =>
      rintro ⟨token, rest, ⟨hne, hall⟩, rfl⟩
      have hbegin := Token.run_none h
      cases token with
      | nil => exact hne rfl
      | cons c token =>
          rw [List.cons_append, beginsWith_cons, hall c List.mem_cons_self] at hbegin
          cases hbegin
  | keyword =>
      rintro ⟨token, rest, htoken, htext⟩
      exact Token.keyword_none h token rest htoken htext
  | operator =>
      rintro ⟨token, rest, htoken, htext⟩
      exact Token.operator_none h token rest htoken htext
  | singleQuoted | doubleQuoted | openParenthesis | closeParenthesis | comma =>
      rintro ⟨token, rest, htoken, rfl⟩
      rw [scanner_append _ htoken (by cases rest <;> rfl)] at h
      exact absurd h (by simp)
  | endOfText =>
      rintro rfl
      exact absurd h (by simp [scanner, Token.endOfText])
  | whole | group | members | condition =>
      rintro ⟨token, rest, htoken, -⟩
      exact htoken

end ModelQuery.Construct

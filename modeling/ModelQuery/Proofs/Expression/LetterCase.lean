import ModelQuery.Proofs.Expression.Exactness
import ModelQuery.Proofs.Filter.Spelling
import ModelQuery.Proofs.Steps
import ModelQuery.Proofs.Text.Folding

/-!
# Pieces in another letter case

A text that is an expression is divided into tokens and gaps where it stands, with its line breaks
in them (`IsDivided`, `exists_isDivided`). Letters of attributes and of group keywords may stand in
the other case; `Recased` says that pieces differ in nothing else, and the lemmas about it say what
this leaves of the pieces of a condition and of those around the members of a group.
-/

namespace ModelQuery

namespace Expression

/-! ## The pieces of a given text -/

/-- The piece without its line breaks. -/
def Piece.joined : Piece → Piece
  | .token kind text => .token kind (withoutLineBreaks text)
  | .gap text => .gap (withoutLineBreaks text)

/-- The text is an expression: the pieces with blank space around them, and without the line breaks,
which may stand anywhere, the pieces are a way of writing the tree. -/
structure IsDivided (given : String) (before : List Char) (pieces : List Piece)
    (after : List Char) : Prop where
  isGap_before : IsGap before
  isGap_after : IsGap after
  toList_eq : given.toList = before ++ (written pieces ++ after)
  layout : ∃ expression, parse given = .ok expression ∧
    Layout 0 expression.root (pieces.map Piece.joined)

/-- What is written as pieces without their line breaks is what they are written as, without its
line breaks. -/
theorem written_joined (pieces : List Piece) :
    written (pieces.map Piece.joined) = withoutLineBreaks (written pieces) := by
  induction pieces with
  | nil => rfl
  | cons piece pieces ih =>
      cases piece with
      | token kind text | gap text => simp [Piece.joined, ih]

/-- What is a gap without its line breaks is a gap. -/
theorem isGap_of_withoutLineBreaks {text : List Char} (h : IsGap (withoutLineBreaks text)) :
    IsGap text := by
  intro c hc
  cases hbreak : Text.isLineBreak c with
  | true => exact Text.isBlank_of_isLineBreak c hbreak
  | false => exact h c (List.mem_filter.mpr ⟨hc, by simp [hbreak]⟩)

/-- Where a text is split without its line breaks, it is split with them. -/
theorem exists_append_of_withoutLineBreaks {text left right : List Char}
    (h : withoutLineBreaks text = left ++ right) :
    ∃ first second, text = first ++ second ∧ withoutLineBreaks first = left ∧
      withoutLineBreaks second = right :=
  List.filter_eq_append_iff.mp h

/-- A text that is written as pieces without its line breaks is divided into such pieces, but for
line breaks at its end. -/
theorem exists_joined (pieces : List Piece) {text : List Char}
    (h : withoutLineBreaks text = written pieces) :
    ∃ wide rest, text = written wide ++ rest ∧ wide.map Piece.joined = pieces ∧ IsGap rest := by
  induction pieces generalizing text with
  | nil =>
      refine ⟨[], text, rfl, rfl, isGap_of_withoutLineBreaks ?_⟩
      rw [h]
      exact fun _ hc ↦ absurd hc List.not_mem_nil
  | cons piece pieces ih =>
      obtain ⟨first, further, rfl, hfirst, hfurther⟩ := exists_append_of_withoutLineBreaks h
      obtain ⟨wide, rest, rfl, hwide, hrest⟩ := ih hfurther
      cases piece with
      | token kind text =>
          refine ⟨.token kind first :: wide, rest, by simp, ?_, hrest⟩
          rw [List.map_cons, hwide, Piece.joined, hfirst, Piece.text]
      | gap text =>
          refine ⟨.gap first :: wide, rest, by simp, ?_, hrest⟩
          rw [List.map_cons, hwide, Piece.joined, hfirst, Piece.text]

/-- Every text that is an expression is divided into pieces. -/
theorem exists_isDivided {given : String} {expression : Expression}
    (h : parse given = .ok expression) :
    ∃ before pieces after, IsDivided given before pieces after := by
  obtain ⟨-, -, pieces, hlayout, hwritten⟩ := layout_of_parse h
  obtain ⟨before, after, hbefore, hafter, hsplit⟩ :=
    Text.exists_trim (withoutLineBreaks given.toList)
  rw [normalize, String.toList_ofList] at hwritten
  rw [show Text.trim (withoutLineBreaks given.toList) = written pieces from hwritten.symm] at hsplit
  -- the line breaks go where the characters around them go
  obtain ⟨start, further, hgiven, rfl, hfurther⟩ := exists_append_of_withoutLineBreaks hsplit
  obtain ⟨body, stop, rfl, hbody, rfl⟩ := exists_append_of_withoutLineBreaks hfurther
  obtain ⟨wide, rest, rfl, rfl, hrest⟩ := exists_joined pieces hbody
  have hend : IsGap (rest ++ stop) :=
    List.forall_mem_append.mpr ⟨hrest, isGap_of_withoutLineBreaks hafter⟩
  exact ⟨start, wide, rest ++ stop, isGap_of_withoutLineBreaks hbefore, hend, by simp [hgiven],
    expression, h, hlayout⟩

/-! ## Other letter case -/

/-- The second piece is the first one, with letters of an attribute or a group keyword in the other
case. -/
inductive Piece.Recased : Piece → Piece → Prop where
  | same (piece : Piece) : Recased piece piece
  | attributeName (name other : List Char) :
      Text.fold other = Text.fold name →
      Recased (.token .attributeName name) (.token .attributeName other)
  | keyword (keyword other : List Char) :
      Text.fold other = Text.fold keyword →
      Recased (.token .keyword keyword) (.token .keyword other)

/-- Line breaks have no letter case. -/
theorem fold_withoutLineBreaks (text : List Char) :
    Text.fold (withoutLineBreaks text) = withoutLineBreaks (Text.fold text) := by
  have hsame : ∀ c : Char, Text.isLineBreak c.toLower = Text.isLineBreak c := by
    intro c
    rw [Bool.eq_iff_iff]
    simp only [Text.isLineBreak, Bool.or_eq_true, beq_iff_eq]
    exact or_congr (Text.toLower_eq_mark_iff (by decide) (by decide))
      (Text.toLower_eq_mark_iff (by decide) (by decide))
  induction text with
  | nil => rfl
  | cons c text ih =>
      unfold withoutLineBreaks at ih ⊢
      rw [Text.fold_cons, List.filter_cons, List.filter_cons, hsame, ← ih]
      split <;> rfl

/-- What is in the other case is so without line breaks. -/
theorem Piece.Recased.joined {piece other : Piece} (h : Recased piece other) :
    Recased piece.joined other.joined := by
  cases h with
  | same => exact .same _
  | attributeName name other h =>
      refine .attributeName _ _ ?_
      rw [fold_withoutLineBreaks, h, fold_withoutLineBreaks]
  | keyword keyword other h =>
      refine .keyword _ _ ?_
      rw [fold_withoutLineBreaks, h, fold_withoutLineBreaks]

/-- A value is written in one case. -/
theorem Piece.Recased.eq_of_value {quote : Quote} {raw : List Char} {other : Piece}
    (h : Recased (.token quote.construct raw) other) : other = .token quote.construct raw := by
  cases quote <;> cases h <;> rfl

/-- The pieces are the same but for letter case, one by one. -/
def Recased : List Piece → List Piece → Prop :=
  List.Forall₂ Piece.Recased

/-- Pieces in the case that they have are the same. -/
theorem Recased.refl (pieces : List Piece) : Recased pieces pieces :=
  List.forall₂_same.mpr fun piece _ ↦ .same piece

/-- A character of an attribute is one in the other case. -/
theorem isNameCharacter_toLower (c : Char) :
    Token.isNameCharacter c.toLower = Token.isNameCharacter c := by
  have hunderscore : '_'.toNat = 95 := rfl
  have hhyphen : '-'.toNat = 45 := rfl
  rw [Bool.eq_iff_iff]
  simp only [Token.isNameCharacter, Token.isAlphanumeric, Bool.or_eq_true, beq_iff_eq,
    Token.isAlpha_iff_toNat, Char.isDigit_iff_toNat, ← Char.toNat_inj, Text.toNat_toLower]
  split <;> omega

/-- What is written like an attribute in another case is written like an attribute. -/
theorem isName_of_fold {name other : List Char} (h : Text.fold other = Text.fold name)
    (hname : IsName name) : IsName other := by
  constructor
  · rintro rfl
    exact hname.1 (List.map_eq_nil_iff.mp h.symm)
  · intro c hc
    have hmem : c.toLower ∈ Text.fold name := h ▸ List.mem_map_of_mem hc
    obtain ⟨d, hd, hsame⟩ := List.mem_map.mp hmem
    rw [← isNameCharacter_toLower, ← hsame, isNameCharacter_toLower]
    exact hname.2 d hd

/-- Pieces in another case are divided like the pieces. -/
theorem Recased.exists_append {left right recased : List Piece}
    (h : Recased (left ++ right) recased) :
    ∃ first second, recased = first ++ second ∧ Recased left first ∧ Recased right second :=
  Steps.exists_append h

/-- In a condition the attribute alone may be in another case. -/
theorem recased_comparison {name before symbol after raw : List Char} {quote : Quote}
    {recased : List Piece} (h : Recased (comparison name before symbol after quote raw) recased) :
    ∃ other, Text.fold other = Text.fold name ∧
      recased = comparison other before symbol after quote raw := by
  obtain _ | ⟨hname, _ | ⟨hbefore, _ | ⟨hsymbol, _ | ⟨hafter, _ | ⟨hraw, _ | _⟩⟩⟩⟩⟩ := h
  cases hbefore
  cases hsymbol
  cases hafter
  obtain rfl := hraw.eq_of_value
  cases hname with
  | same => exact ⟨name, rfl, rfl⟩
  | attributeName _ other h => exact ⟨other, h, rfl⟩

/-- Before the members of a group the keyword alone may be in another case. -/
theorem recased_opening {keyword before inner : List Char} {recased : List Piece}
    (h : Recased (opening keyword before inner) recased) :
    ∃ other, Text.fold other = Text.fold keyword ∧ recased = opening other before inner := by
  obtain _ | ⟨hkeyword, _ | ⟨hbefore, _ | ⟨hopen, _ | ⟨hinner, _ | _⟩⟩⟩⟩ := h
  cases hbefore
  cases hopen
  cases hinner
  cases hkeyword with
  | same => exact ⟨keyword, rfl, rfl⟩
  | keyword _ other h => exact ⟨other, h, rfl⟩

/-- Nothing between two members of a group may be in another case. -/
theorem recased_separator {before after : List Char} {recased : List Piece}
    (h : Recased (separator before after) recased) : recased = separator before after := by
  obtain _ | ⟨hbefore, _ | ⟨hcomma, _ | ⟨hafter, _ | _⟩⟩⟩ := h
  cases hbefore
  cases hcomma
  cases hafter
  rfl

/-- Nothing behind the members of a group may be in another case. -/
theorem recased_closing {before : List Char} {recased : List Piece}
    (h : Recased (closing before) recased) : recased = closing before := by
  obtain _ | ⟨hbefore, _ | ⟨hclose, _ | _⟩⟩ := h
  cases hbefore
  cases hclose
  rfl

end Expression

end ModelQuery

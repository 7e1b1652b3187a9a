import ModelQuery.Proofs.Filter.Reading

/-!
# Letter case does not count

Names and literals are resolved without regard to the case of ASCII letters, and so a text that has
a filter has the same filter with letters of its attributes and group keywords in the other case
(`parse_of_recased`). The letters are changed where they stand, with the line breaks and the blank
space around them. Letters outside ASCII and those of values do count.
-/

namespace ModelQuery

open Text (fold)

/-- Pieces in another case are so without line breaks. -/
theorem Expression.Recased.joined {pieces recased : List Expression.Piece}
    (h : Expression.Recased pieces recased) :
    Expression.Recased (pieces.map Expression.Piece.joined)
      (recased.map Expression.Piece.joined) :=
  List.forall₂_map_left_iff.mpr
    (List.forall₂_map_right_iff.mpr (h.imp fun _ _ hpiece ↦ hpiece.joined))

namespace Filter

open Expression

/-- A text that has a filter has the same filter with letters of its attributes and group keywords
in the other case. -/
theorem parse_of_recased {given : String} {filter : Filter} {before after : List Char}
    {pieces recased : List Piece} (h : parse given = .ok filter)
    (hdivided : IsDivided given before pieces after) (hcase : Recased pieces recased) :
    parse (String.ofList (before ++ (written recased ++ after))) = .ok filter := by
  obtain ⟨expression, hread, hlayout⟩ := hdivided.layout
  obtain ⟨found, hfound, hfilter⟩ := parse_eq_ok_iff.mp h
  obtain rfl := Except.ok.inj (hread.symm.trans hfound)
  have hspelling := spelling_of_recased hlayout hcase.joined hfilter
  -- the text is normalized to what is written without its line breaks
  obtain ⟨node, clean, hclean, hwritten, -⟩ := hspelling.exists_layout 0 given
  have hnormal : (normalize (String.ofList (before ++ (written recased ++ after)))).toList =
      written clean := by
    refine hclean.toList_normalize (isGap_withoutLineBreaks hdivided.isGap_before)
      (isGap_withoutLineBreaks hdivided.isGap_after) ?_
    rw [String.toList_ofList, withoutLineBreaks_append, withoutLineBreaks_append, hwritten,
      written_joined]
  refine parse_eq_ok_iff_spelling.mpr ⟨?_, (parse_eq_ok_iff_spelling.mp h).2⟩
  rw [hnormal, hwritten]
  exact hspelling

/-- Letter case does not count. Names that differ in the case of ASCII letters only are resolved to
the same identifier or are both refused, and literals have the same name. A text that has a filter
is divided into tokens and gaps, and however the case of letters in its attributes and its group
keywords is changed there, it has the same filter. -/
theorem resolution_ignores_case :
    (∀ left right : String, fold left.toList = fold right.toList →
      (∀ id, AttributeId.resolve left = .ok id ↔ AttributeId.resolve right = .ok id) ∧
      ∀ name, AttributeId.nameOfLiteral left = .ok name ↔
        AttributeId.nameOfLiteral right = .ok name) ∧
    ∀ (given : String) (filter : Filter), parse given = .ok filter →
      (∃ before pieces after, IsDivided given before pieces after) ∧
      ∀ before pieces after recased, IsDivided given before pieces after →
        Recased pieces recased →
        parse (String.ofList (before ++ (written recased ++ after))) = .ok filter := by
  constructor
  · intro left right h
    exact ⟨fun _ ↦ AttributeId.resolve_eq_ok_iff_of_fold h,
      fun _ ↦ AttributeId.nameOfLiteral_eq_ok_iff_of_fold h⟩
  · intro given filter h
    obtain ⟨expression, hread, -⟩ := parse_eq_ok_iff.mp h
    exact ⟨exists_isDivided hread, fun _ _ _ _ ↦ parse_of_recased h⟩

/-- The negation of two conditions. -/
def negation : Filter :=
  .group .negation [.condition ⟨"0x1006e", .contains, "aB"⟩, .condition ⟨"-0xff", .equals, "x"⟩]

/-- The pieces of a text whose filter is `negation`, with three words of it in any letter case. -/
def negationPieces (keyword name literal : String) : List Piece :=
  opening keyword.toList [] ['\n'] ++
    (comparison name.toList [' '] ['~'] [' '] .single "'aB'".toList ++ separator [' '] [] ++
      comparison literal.toList [] ['='] [] .bare ['x']) ++
    closing []

/-- The text of `negation` is divided into its pieces. -/
theorem isDivided_negation :
    parse " NOT(\nMo\rdel_Name ~ 'aB' ,-0XfF=x)" = .ok negation ∧
      IsDivided " NOT(\nMo\rdel_Name ~ 'aB' ,-0XfF=x)" [' ']
        (negationPieces "NOT" "Mo\rdel_Name" "-0XfF") [] := by
  have hfirst : Layout 4 (.condition "Model_Name" "~" ⟨.single, "'aB'"⟩ 15)
      (comparison "Model_Name".toList [' '] ['~'] [' '] .single "'aB'".toList) :=
    .condition 4 _ [' '] _ [' '] .single _ (by decide) (by decide) (by decide) (by decide)
      ⟨['a', 'B'], by decide, rfl⟩
  have hsecond : Layout 23 (.condition "-0XfF" "=" ⟨.bare, "x"⟩ 28)
      (comparison "-0XfF".toList [] ['='] [] .bare ['x']) :=
    .condition 23 _ [] _ [] .bare _ (by decide) (by decide) (by decide) (by decide)
      (show IsWord ['x'] by decide)
  have hlayout := Layout.group 0 "NOT".toList [] [] _ _ [] (by decide) (by decide) (by decide)
    (.more 4 _ _ [' '] [] _ _ hfirst (by decide) (by decide) (.last 23 _ _ hsecond)) (by decide)
  have hread : Expression.parse " NOT(\nMo\rdel_Name ~ 'aB' ,-0XfF=x)" = .ok _ :=
    hlayout.parse (by decide) (by decide)
  exact ⟨parse_eq_ok_iff.mpr ⟨_, hread, rfl⟩, by decide, by decide, by decide, _, hread, hlayout⟩

/-- A catalogue name with a line break in it, a literal and a keyword are written in another
case. -/
theorem resolution_ignores_case_negation :
    fold "-0XfF".toList = fold "-0xFf".toList ∧
    AttributeId.resolve "-0xFf" = .ok ⟨-255, by decide, by decide⟩ ∧
    AttributeId.nameOfLiteral "-0xFf" = .ok "-0xff" ∧
    parse " NOT(\nMo\rdel_Name ~ 'aB' ,-0XfF=x)" = .ok negation ∧
    IsDivided " NOT(\nMo\rdel_Name ~ 'aB' ,-0XfF=x)" [' ']
      (negationPieces "NOT" "Mo\rdel_Name" "-0XfF") [] ∧
    Recased (negationPieces "NOT" "Mo\rdel_Name" "-0XfF")
      (negationPieces "nOt" "mO\rDEL_nAME" "-0xFf") ∧
    parse " nOt(\nmO\rDEL_nAME ~ 'aB' ,-0xFf=x)" = .ok negation := by
  have hfold : fold "-0XfF".toList = fold "-0xFf".toList := by decide
  obtain ⟨hid, hname⟩ := resolution_ignores_case.1 "-0XfF" "-0xFf" hfold
  obtain ⟨hparse, hdivided⟩ := isDivided_negation
  have hcase : Recased (negationPieces "NOT" "Mo\rdel_Name" "-0XfF")
      (negationPieces "nOt" "mO\rDEL_nAME" "-0xFf") :=
    .cons (.keyword _ _ (by decide)) <| .cons (.same _) <| .cons (.same _) <| .cons (.same _) <|
      .cons (.attributeName _ _ (by decide)) <| .cons (.same _) <| .cons (.same _) <|
      .cons (.same _) <| .cons (.same _) <| .cons (.same _) <| .cons (.same _) <|
      .cons (.same _) <| .cons (.attributeName _ _ (by decide)) <| Recased.refl _
  have hother := (resolution_ignores_case.2 _ negation hparse).2 _ _ _ _ hdivided hcase
  have htext : String.ofList
      ([' '] ++ (written (negationPieces "nOt" "mO\rDEL_nAME" "-0xFf") ++ [])) =
      " nOt(\nmO\rDEL_nAME ~ 'aB' ,-0xFf=x)" := by
    decide
  rw [htext] at hother
  exact ⟨hfold, (hid _).mp rfl, (hname _).mp rfl, hparse, hdivided, hcase, hother⟩

end Filter

end ModelQuery

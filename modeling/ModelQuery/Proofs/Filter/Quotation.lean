import ModelQuery.Proofs.Expression.Quoting
import ModelQuery.Proofs.Filter.Reading

/-!
# Quoted text stays in its value

What stands between two quotes in a text that has a filter is the value of one condition, and no
other text between them without such a quote has any other influence than on this value
(`parse_between`). The condition is found by induction on the spelling that the text is
(`Spelling.between`): the stretch between the quotes stands in the text of one member of a group, or
behind all of them.
-/

namespace ModelQuery.Filter

open Expression

/-! ## A place in a filter -/

/-- A filter with a place for another filter in it. -/
inductive Context where
  | here
  | inside (combinator : Combinator) (before : List Filter) (context : Context)
      (after : List Filter)

/-- The filter that has the given one at the place. -/
def Context.fill : Context → Filter → Filter
  | here, filter => filter
  | inside combinator before context after, filter =>
      .group combinator (before ++ context.fill filter :: after)

/-- The depth of several filters does not change with one of them if that keeps its own. -/
theorem depthAll_replace (before : List Filter) {left right : Filter} (after : List Filter)
    (h : left.depth = right.depth) :
    depthAll (before ++ left :: after) = depthAll (before ++ right :: after) := by
  induction before with
  | nil => simp only [List.nil_append, depthAll, h]
  | cons member before ih => simp only [List.cons_append, depthAll, ih]

/-- The depth of a filter does not change with the one at the place if that keeps its own. -/
theorem Context.depth_fill (context : Context) {left right : Filter}
    (h : left.depth = right.depth) : (context.fill left).depth = (context.fill right).depth := by
  induction context with
  | here => exact h
  | inside combinator before context after ih =>
      simp only [fill, depth, depthAll_replace before after ih]

/-! ## The condition of a quoted value -/

variable {quote : Char}

/-- One condition of the filter has the value, which is written in quotes between two texts, and
has any other value without such a quote if that is written there. -/
def HoldsBetween (quote : Char) (filter : Filter) (before value after : List Char) : Prop :=
  ∃ (context : Context) (single : Condition), filter = context.fill (.condition single) ∧
    single.value = String.ofList value ∧
    ∀ other, quote ∉ other →
      Spelling (context.fill (.condition { single with value := String.ofList other }))
        (before ++ quote :: (other ++ quote :: after))

/-- One condition of one of the filters has the value, which is written in quotes between two texts,
and has any other value without such a quote if that is written there. -/
def HoldsBetweenAmong (quote : Char) (filters : List Filter) (before value after : List Char) :
    Prop :=
  ∃ (left : List Filter) (context : Context) (single : Condition) (right : List Filter),
    filters = left ++ context.fill (.condition single) :: right ∧
    single.value = String.ofList value ∧
    ∀ other, quote ∉ other →
      Spellings
        (left ++ context.fill (.condition { single with value := String.ofList other }) :: right)
        (before ++ quote :: (other ++ quote :: after))

/-- A stretch from a quote to the next one of its kind stands behind a text. -/
def StandsBehind (quote : Char) (text before body after rest : List Char) : Prop :=
  ∃ between, before = text ++ between ∧ rest = between ++ quote :: (body ++ quote :: after) ∧
    ClosesQuotes between

/-- The parts of a condition before its value have no quotes. -/
theorem isUnquoted_head {name before after : List Char} (operator : Operator)
    (hname : IsName name) (hbefore : IsGap before) (hafter : IsGap after) :
    IsUnquoted (name ++ (before ++ (operator.symbol.toList ++ after))) :=
  (isPlain_of_isWord (isWord_of_isName hname)).isUnquoted.append
    ((isPlain_of_isGap hbefore).isUnquoted.append
      ((isPlain_of_isSymbol ⟨operator, operator.mem_all, rfl⟩).isUnquoted.append
        (isPlain_of_isGap hafter).isUnquoted))

/-- What stands before the members of a group has no quotes. -/
theorem isUnquoted_opening {keyword before inner : List Char} (hkeyword : IsKeyword keyword)
    (hbefore : IsGap before) (hinner : IsGap inner) :
    IsUnquoted (keyword ++ (before ++ ('(' :: inner))) :=
  (isPlain_of_isWord (isWord_of_isName (isName_of_isKeyword hkeyword))).isUnquoted.append
    ((isPlain_of_isGap hbefore).isUnquoted.append
      (.cons (by decide) (isPlain_of_isGap hinner).isUnquoted))

/-- What stands between two members of a group has no quotes. -/
theorem isUnquoted_separator {before after : List Char} (hbefore : IsGap before)
    (hafter : IsGap after) : IsUnquoted (before ++ (',' :: after)) :=
  (isPlain_of_isGap hbefore).isUnquoted.append
    (.cons (by decide) (isPlain_of_isGap hafter).isUnquoted)

/-- A stretch between quotes is a written value, or stands behind it. -/
theorem ValueSpelling.between (hquote : quote = '\'' ∨ quote = '"') {value raw : List Char}
    {form : Quote} (h : ValueSpelling value form raw) {rest before body after : List Char}
    (hbody : quote ∉ body) (hclosed : ClosesQuotes before)
    (hsplit : raw ++ rest = before ++ quote :: (body ++ quote :: after)) :
    (before = [] ∧ value = body ∧ rest = after ∧
      ∀ other, quote ∉ other → ValueSpelling other form (quote :: (other ++ [quote]))) ∨
    StandsBehind quote raw before body after rest := by
  cases h with
  | bare hword =>
      exact Or.inr (exists_behind_unquoted hquote (isPlain_of_isWord hword).isUnquoted hsplit
        hclosed)
  | single hvalue =>
      rcases quoted_cases hquote (Or.inl rfl) hvalue hbody hclosed hsplit with
        ⟨hbefore, rfl, hsame, hrest⟩ | hbehind
      · exact Or.inl ⟨hbefore, hsame, hrest, fun other hother ↦ .single hother⟩
      · exact Or.inr hbehind
  | double hvalue =>
      rcases quoted_cases hquote (Or.inr rfl) hvalue hbody hclosed hsplit with
        ⟨hbefore, rfl, hsame, hrest⟩ | hbehind
      · exact Or.inl ⟨hbefore, hsame, hrest, fun other hother ↦ .double hother⟩
      · exact Or.inr hbehind

mutual

/-- A stretch between quotes is the value of a condition of a spelled filter, or stands behind. -/
theorem Spelling.between (hquote : quote = '\'' ∨ quote = '"') {filter : Filter}
    {text : List Char} (h : Spelling filter text) {rest before body after : List Char}
    (hbody : quote ∉ body) (hclosed : ClosesQuotes before)
    (hsplit : text ++ rest = before ++ quote :: (body ++ quote :: after)) :
    (∃ within, after = within ++ rest ∧ HoldsBetween quote filter before body within) ∨
      StandsBehind quote text before body after rest := by
  cases h with
  | condition single id name gap beyond form raw hname hid htext hgap hbeyond hraw =>
      -- the stretch begins behind the operator, so at the value or behind it
      have hhead := isUnquoted_head single.operator hname hgap hbeyond
      simp only [← List.append_assoc] at hsplit hhead
      rw [List.append_assoc] at hsplit
      obtain ⟨between, rfl, hrest, hbetween⟩ :=
        exists_behind_unquoted hquote hhead hsplit hclosed
      rcases hraw.between hquote hbody hbetween hrest with
        ⟨rfl, hvalue, rfl, hother⟩ | ⟨further, rfl, hfurther, hends⟩
      · refine Or.inl ⟨[], rfl, .here, single, rfl, ?_, ?_⟩
        · rw [← hvalue, String.ofList_toList]
        · intro other hnot
          have hspelling := Spelling.condition { single with value := String.ofList other } id name
            gap beyond form _ hname hid htext hgap hbeyond
            (by rw [String.toList_ofList]; exact hother other hnot)
          simpa [Context.fill, List.append_assoc] using hspelling
      · exact Or.inr ⟨further, by simp only [List.append_assoc], hfurther, hends⟩
  | group combinator members keyword gap inner text beyond hkeyword hgap hinner hmembers hbeyond =>
      -- the stretch begins in the members, or behind them and then behind the parenthesis
      have hopening := isUnquoted_opening ⟨combinator, combinator.mem_all, hkeyword⟩ hgap hinner
      have hclosing : IsUnquoted (beyond ++ [')']) :=
        (isPlain_of_isGap hbeyond).isUnquoted.append ⟨by decide, by decide⟩
      have hbehind : keyword ++ (gap ++ ('(' :: inner)) ++ (text ++ (beyond ++ [')'] ++ rest)) =
          before ++ quote :: (body ++ quote :: after) := by simpa using hsplit
      obtain ⟨between, rfl, hrest, hbetween⟩ :=
        exists_behind_unquoted hquote hopening hbehind hclosed
      rcases hmembers.between hquote hbody hbetween hrest with
        ⟨within, rfl, left, context, single, right, rfl, hvalue, hother⟩ |
          ⟨further, rfl, hfurther, hends⟩
      · refine Or.inl ⟨within ++ (beyond ++ [')']), by simp,
          .inside combinator left context right, single, rfl, hvalue, ?_⟩
        intro other hnot
        have hspelling := Spelling.group combinator _ keyword gap inner _ beyond hkeyword hgap
          hinner (hother other hnot) hbeyond
        simpa [Context.fill] using hspelling
      · obtain ⟨last, rfl, hlast, hend⟩ :=
          exists_behind_unquoted hquote hclosing hfurther hends
        exact Or.inr ⟨last, by simp, hlast, hend⟩

/-- A stretch between quotes is the value of a condition of one of several spelled filters, or
stands behind them. -/
theorem Spellings.between (hquote : quote = '\'' ∨ quote = '"') {filters : List Filter}
    {text : List Char} (h : Spellings filters text) {rest before body after : List Char}
    (hbody : quote ∉ body) (hclosed : ClosesQuotes before)
    (hsplit : text ++ rest = before ++ quote :: (body ++ quote :: after)) :
    (∃ within, after = within ++ rest ∧ HoldsBetweenAmong quote filters before body within) ∨
      StandsBehind quote text before body after rest := by
  cases h with
  | last filter text hfilter =>
      rcases hfilter.between hquote hbody hclosed hsplit with
        ⟨within, rfl, context, single, rfl, hvalue, hother⟩ | hbehind
      · exact Or.inl ⟨within, rfl, [], context, single, [], rfl, hvalue,
          fun other hnot ↦ .last _ _ (hother other hnot)⟩
      · exact Or.inr hbehind
  | more filter first gap beyond filters text hfilter hgap hbeyond hfilters =>
      have hfirst : first ++ (gap ++ (',' :: (beyond ++ text)) ++ rest) =
          before ++ quote :: (body ++ quote :: after) := by simpa using hsplit
      rcases hfilter.between hquote hbody hclosed hfirst with
        ⟨within, rfl, context, single, rfl, hvalue, hother⟩ | ⟨between, rfl, hbetween, hends⟩
      · refine Or.inl ⟨within ++ (gap ++ (',' :: (beyond ++ text))), by simp, [], context, single,
          filters, rfl, hvalue, ?_⟩
        intro other hnot
        have hspelling := Spellings.more _ _ gap beyond filters text (hother other hnot) hgap
          hbeyond hfilters
        simpa using hspelling
      · have hbehind : gap ++ (',' :: beyond) ++ (text ++ rest) =
            between ++ quote :: (body ++ quote :: after) := by simpa using hbetween
        obtain ⟨further, rfl, hfurther, hend⟩ :=
          exists_behind_unquoted hquote (isUnquoted_separator hgap hbeyond) hbehind hends
        rcases hfilters.between hquote hbody hend hfurther with
          ⟨within, rfl, left, context, single, right, rfl, hvalue, hother⟩ |
            ⟨last, rfl, hlast, hlastEnds⟩
        · refine Or.inl ⟨within, rfl, filter :: left, context, single, right, rfl, hvalue, ?_⟩
          intro other hnot
          have hspelling := Spellings.more filter first gap beyond _ _ hfilter hgap hbeyond
            (hother other hnot)
          simpa using hspelling
        · exact Or.inr ⟨last, by simp, hlast, hlastEnds⟩

end

/-! ## The text around -/

/-- What is left of a text with a quoted stretch when it is normalized. -/
theorem normalize_quoted (hquote : quote = '\'' ∨ quote = '"') (before body after : List Char) :
    (normalize (String.ofList (before ++ quote :: (body ++ quote :: after)))).toList =
      Text.trimStart (withoutLineBreaks before) ++ quote :: (withoutLineBreaks body ++
        quote :: Text.trimEnd (withoutLineBreaks after)) := by
  have hblank : Text.isBlank quote = false := by
    rcases hquote with rfl | rfl <;> decide
  have hkept : ∀ rest, withoutLineBreaks (quote :: rest) = quote :: withoutLineBreaks rest := by
    intro rest
    rcases hquote with rfl | rfl <;> rfl
  rw [Expression.normalize, String.toList_ofList, String.toList_ofList]
  show Text.trim (withoutLineBreaks _) = _
  rw [withoutLineBreaks_append, hkept, withoutLineBreaks_append, hkept,
    Text.trim_around hblank hblank]

/-- Normalizing the text before a quoted stretch leaves no quote open if none was. -/
theorem closesQuotes_normal {before : List Char} (h : ClosesQuotes before) :
    ClosesQuotes (Text.trimStart (withoutLineBreaks before)) := by
  have hstart : HoldsQuote .start := by
    intro c hc
    cases hc
  unfold ClosesQuotes withoutLineBreaks
  rw [scan_trimStart hstart, scan_filter hstart]
  · exact h
  · intro c hc
    exact Text.isBlank_of_isLineBreak c (by simpa using hc)

/-- What is quoted in a text that has a filter, from a quote that opens to the next one of its kind,
is the value of one condition. Whatever else is written there without such a quote, the text has a
filter, and this differs in the value of this condition only, which is what is written there without
its line breaks. -/
theorem parse_between (before body after : List Char) (quote : Char) (filter : Filter)
    (hquote : quote = '\'' ∨ quote = '"') (hbody : quote ∉ body) (hclosed : ClosesQuotes before)
    (hparse : parse (String.ofList (before ++ quote :: (body ++ quote :: after))) = .ok filter) :
    ∃ (context : Context) (single : Condition),
      filter = context.fill (.condition single) ∧
      single.value = String.ofList (withoutLineBreaks body) ∧
      ∀ value, quote ∉ value →
        parse (String.ofList (before ++ quote :: (value ++ quote :: after))) =
          .ok (context.fill
            (.condition { single with value := String.ofList (withoutLineBreaks value) })) := by
  have hclean : ∀ {text}, quote ∉ text → quote ∉ withoutLineBreaks text :=
    fun htext hmem ↦ htext (List.mem_filter.mp hmem).1
  obtain ⟨hspelling, hdepth⟩ := parse_eq_ok_iff_spelling.mp hparse
  rw [normalize_quoted hquote] at hspelling
  rcases hspelling.between hquote (hclean hbody) (closesQuotes_normal hclosed)
    (List.append_nil _) with ⟨within, hwithin, context, single, rfl, hvalue, hother⟩ |
      ⟨between, -, hnone, -⟩
  · refine ⟨context, single, rfl, hvalue, fun value hnot ↦ ?_⟩
    refine parse_eq_ok_iff_spelling.mpr ⟨?_, ?_⟩
    · rw [normalize_quoted hquote, hwithin, List.append_nil]
      exact hother _ (hclean hnot)
    · have hkept : ∀ other : Condition, (context.fill (.condition other)).depth =
          (context.fill (.condition single)).depth := fun other ↦ context.depth_fill rfl
      rw [hkept]
      exact hdepth
  · cases between <;> cases hnone

/-- A choice between a quoted parenthesis and a quoted apostrophe. -/
def choice : Filter :=
  .group .disjunction
    [.condition ⟨"-0x1", .equals, "(a"⟩, .condition ⟨"0x1006e", .equals, "it's"⟩]

/-- The first value stands between apostrophes, with a line break in it. -/
theorem parse_between_choice :
    parse (String.ofList ("or( -1=".toList ++ '\'' :: ("(\na".toList ++
      '\'' :: ",model_name=\"it's\")\n".toList))) = .ok choice ∧
    ∃ (context : Context) (single : Condition),
      choice = context.fill (.condition single) ∧
      single.value = String.ofList (withoutLineBreaks "(\na".toList) ∧
      ∀ value, '\'' ∉ value →
        parse (String.ofList ("or( -1=".toList ++ '\'' :: (value ++
            '\'' :: ",model_name=\"it's\")\n".toList))) =
          .ok (context.fill
            (.condition { single with value := String.ofList (withoutLineBreaks value) })) := by
  have hfirst : Spelling (.condition ⟨"-0x1", .equals, "(a"⟩) "-1='(a'".toList :=
    .condition _ ⟨-1, by decide, by decide⟩ "-1".toList [] [] .single _ (by decide) rfl rfl
      (by decide) (by decide) (.single (by decide))
  have hsecond : Spelling (.condition ⟨"0x1006e", .equals, "it's"⟩)
      "model_name=\"it's\"".toList :=
    .condition _ Attribute.modelName.id "model_name".toList [] [] .double _ (by decide) rfl rfl
      (by decide) (by decide) (.double (by decide))
  have hspelling : Spelling choice "or( -1='(a',model_name=\"it's\")".toList :=
    .group .disjunction _ ['o', 'r'] [] [' '] _ [] (by decide) (by decide) (by decide)
      (.more _ _ [] [] _ _ hfirst (by decide) (by decide) (.last _ _ hsecond)) (by decide)
  have hparse : parse (String.ofList ("or( -1=".toList ++ '\'' :: ("(\na".toList ++
      '\'' :: ",model_name=\"it's\")\n".toList))) = .ok choice := by
    refine parse_eq_ok_iff_spelling.mpr ⟨?_, by decide⟩
    rw [normalize_quoted (Or.inl rfl)]
    exact hspelling
  exact ⟨hparse, parse_between _ _ _ '\'' choice (Or.inl rfl) (by decide) (by decide) hparse⟩

end ModelQuery.Filter

import ModelQuery.Proofs.Filter.WellFormed

/-!
# Spellings of filters

A filter can be written in many ways: attributes by any name that is resolved to them, keywords in
any letter case, values in quotes or bare, with any blank space between tokens and at both ends, and
with line breaks anywhere, even inside of tokens. `Spelling` and `LineBreaksInserted` say which
texts these are, and every one of them is read as the filter.

A spelling has line breaks in its gaps only, so without its line breaks it is a spelling of the same
filter (`Spelling.withoutLineBreaks`); and a spelling is a layout of a tree whose filter this is
(`Spelling.exists_layout`).
-/

namespace ModelQuery

open Expression

/-- The longer text is the first one with carriage returns and line feeds inserted anywhere. -/
inductive LineBreaksInserted : List Char → List Char → Prop where
  | nil : LineBreaksInserted [] []
  | keep (c : Char) (text longer : List Char) :
      LineBreaksInserted text longer → LineBreaksInserted (c :: text) (c :: longer)
  | insert (c : Char) (text longer : List Char) :
      Text.isLineBreak c = true → LineBreaksInserted text longer →
      LineBreaksInserted text (c :: longer)

/-- The text without its line breaks. -/
def withoutLineBreaks (text : List Char) : List Char :=
  text.filter fun c ↦ !Text.isLineBreak c

@[simp] theorem withoutLineBreaks_append (left right : List Char) :
    withoutLineBreaks (left ++ right) = withoutLineBreaks left ++ withoutLineBreaks right :=
  List.filter_append left right

/-- A character that is no line break stays. -/
theorem withoutLineBreaks_cons {c : Char} (h : Text.isLineBreak c = false) (text : List Char) :
    withoutLineBreaks (c :: text) = c :: withoutLineBreaks text := by
  rw [withoutLineBreaks, List.filter_cons, h]
  rfl

/-- Without its line breaks a text does not show where some were inserted. -/
theorem LineBreaksInserted.withoutLineBreaks {text longer : List Char}
    (h : LineBreaksInserted text longer) :
    withoutLineBreaks longer = withoutLineBreaks text := by
  unfold ModelQuery.withoutLineBreaks
  induction h with
  | nil => rfl
  | keep c text longer _ ih => rw [List.filter_cons, List.filter_cons, ih]
  | insert c text longer hc _ ih => rw [List.filter_cons, hc, ih]; rfl

/-- Every text is what is left without its line breaks, with these inserted. -/
theorem lineBreaksInserted_withoutLineBreaks (text : List Char) :
    LineBreaksInserted (withoutLineBreaks text) text := by
  induction text with
  | nil => exact .nil
  | cons c text ih =>
      unfold withoutLineBreaks at ih ⊢
      rw [List.filter_cons]
      cases hc : Text.isLineBreak c with
      | false => exact .keep c _ _ ih
      | true => exact .insert c _ _ hc ih

/-- A gap without its line breaks is a gap. -/
theorem isGap_withoutLineBreaks {text : List Char} (h : IsGap text) :
    IsGap (withoutLineBreaks text) := by
  intro c hc
  exact h c (List.mem_filter.mp hc).1

/-- A text without line breaks stays as it is. -/
theorem withoutLineBreaks_eq_self {text : List Char}
    (h : ∀ c ∈ text, Text.isLineBreak c = false) : withoutLineBreaks text = text := by
  refine List.filter_eq_self.mpr ?_
  intro c hc
  rw [h c hc]
  rfl

/-- A word has no line breaks. -/
theorem withoutLineBreaks_word {text : List Char} (h : IsWord text) :
    withoutLineBreaks text = text := by
  refine withoutLineBreaks_eq_self ?_
  intro c hc
  have hblank := Token.isBlank_of_isWordCharacter c (h.2 c hc)
  by_cases hbreak : Text.isLineBreak c = true
  · rw [Text.isBlank_of_isLineBreak c hbreak] at hblank
    cases hblank
  · exact Bool.eq_false_iff.mpr hbreak

/-- The symbol of an operator has no line breaks. -/
theorem withoutLineBreaks_symbol (operator : Operator) :
    withoutLineBreaks operator.symbol.toList = operator.symbol.toList := by
  cases operator <;> decide

/-- Without its line breaks, a layout in blank space is normalized to the layout alone. -/
theorem Expression.Layout.toList_normalize {offset : Nat} {node : Node} {pieces : List Piece}
    {given : String} {before after : List Char} (h : Layout offset node pieces)
    (hbefore : IsGap before) (hafter : IsGap after)
    (hgiven : withoutLineBreaks given.toList = before ++ (written pieces ++ after)) :
    (normalize given).toList = written pieces := by
  rw [Expression.normalize, String.toList_ofList]
  show Text.trim (withoutLineBreaks given.toList) = _
  rw [hgiven]
  exact Text.trim_between hbefore hafter h.written_ne_nil h.begins h.ends

namespace Filter

/-- `ValueSpelling value quote raw` says that the raw text writes the value in the given form. -/
inductive ValueSpelling (value : List Char) : Quote → List Char → Prop where
  | bare : IsWord value → ValueSpelling value .bare value
  | single : '\'' ∉ value → ValueSpelling value .single ('\'' :: (value ++ ['\'']))
  | double : '"' ∉ value → ValueSpelling value .double ('"' :: (value ++ ['"']))

mutual

/-- The text is a way of writing the filter. -/
inductive Spelling : Filter → List Char → Prop where
  | condition (single : Condition) (id : AttributeId) (name before after : List Char)
      (quote : Quote) (raw : List Char) :
      IsName name → AttributeId.resolve (String.ofList name) = .ok id → id.text = single.id →
      IsGap before → IsGap after → ValueSpelling single.value.toList quote raw →
      Spelling (.condition single)
        (name ++ (before ++ (single.operator.symbol.toList ++ (after ++ raw))))
  | group (combinator : Combinator) (members : List Filter)
      (keyword before inner text after : List Char) :
      Text.fold keyword = combinator.keyword.toList → IsGap before → IsGap inner →
      Spellings members text → IsGap after →
      Spelling (.group combinator members)
        (keyword ++ (before ++ ('(' :: (inner ++ (text ++ (after ++ [')']))))))

/-- The text is a way of writing the filters, one or more of them, separated by commas. -/
inductive Spellings : List Filter → List Char → Prop where
  | last (filter : Filter) (text : List Char) : Spelling filter text → Spellings [filter] text
  | more (filter : Filter) (text before after : List Char) (filters : List Filter)
      (rest : List Char) :
      Spelling filter text → IsGap before → IsGap after → Spellings filters rest →
      Spellings (filter :: filters) (text ++ (before ++ (',' :: (after ++ rest))))

end

/-- A written value is a token of its form. -/
theorem ValueSpelling.isToken {value raw : List Char} {quote : Quote}
    (h : ValueSpelling value quote raw) : quote.construct.IsToken raw := by
  cases h with
  | bare hword => exact hword
  | single hquote => exact ⟨value, hquote, rfl⟩
  | double hquote => exact ⟨value, hquote, rfl⟩

/-- A written value stands for the value. -/
theorem ValueSpelling.content {value : String} {raw : List Char} {quote : Quote}
    (h : ValueSpelling value.toList quote raw) :
    WrittenValue.content ⟨quote, String.ofList raw⟩ = value := by
  cases h with
  | bare => exact String.ofList_toList
  | single | double =>
      rw [WrittenValue.content_quoted rfl, String.ofList_toList]

/-- A written value has no line breaks if the value has none. -/
theorem ValueSpelling.withoutLineBreaks_eq {value : String} {raw : List Char} {quote : Quote}
    (h : ValueSpelling value.toList quote raw) (hplain : IsPlainValue value) :
    withoutLineBreaks raw = raw := by
  have hvalue : ∀ c ∈ value.toList, Text.isLineBreak c = false := by
    intro c hc
    exact hplain.isLineBreak_eq_false hc
  refine withoutLineBreaks_eq_self ?_
  intro c hc
  cases h with
  | bare => exact hvalue c hc
  | single | double =>
      simp only [List.mem_cons, List.mem_append, List.not_mem_nil, or_false] at hc
      rcases hc with rfl | hc | rfl
      · decide
      · exact hvalue c hc
      · decide

/-- A spelling ends with no blank. -/
theorem Spelling.ends {filter : Filter} {text : List Char} (h : Spelling filter text) :
    Text.beginsWith Text.isBlank text.reverse = false := by
  cases h with
  | condition single id name before after quote raw _ _ _ _ _ hraw =>
      simp only [List.reverse_append, List.append_assoc]
      exact ends_value hraw.isToken _
  | group combinator members keyword before inner text after =>
      simp only [List.reverse_append, List.reverse_cons, List.append_assoc]
      rfl

mutual

/-- A spelling without its line breaks is a spelling of the same filter. -/
theorem Spelling.withoutLineBreaks {filter : Filter} {text : List Char}
    (h : Spelling filter text) (hwell : WellFormed filter) :
    Spelling filter (withoutLineBreaks text) := by
  cases h with
  | condition single id name before after quote raw hname hid htext hbefore hafter hraw =>
      cases hwell with
      | condition _ _ hplain =>
          simp only [withoutLineBreaks_append, withoutLineBreaks_word (isWord_of_isName hname),
            withoutLineBreaks_symbol, hraw.withoutLineBreaks_eq hplain]
          exact .condition single id name _ _ quote raw hname hid htext
            (isGap_withoutLineBreaks hbefore) (isGap_withoutLineBreaks hafter) hraw
  | group combinator members keyword before inner text after hkeyword hbefore hinner hmembers
      hafter =>
      cases hwell with
      | group _ _ _ hall =>
          have hword : IsWord keyword :=
            isWord_of_isName (isName_of_isKeyword ⟨combinator, combinator.mem_all, hkeyword⟩)
          have hsplit : withoutLineBreaks
              (keyword ++ (before ++ ('(' :: (inner ++ (text ++ (after ++ [')'])))))) =
              keyword ++ (withoutLineBreaks before ++ ('(' :: (withoutLineBreaks inner ++
                (withoutLineBreaks text ++ (withoutLineBreaks after ++ [')']))))) := by
            rw [withoutLineBreaks_append, withoutLineBreaks_word hword, withoutLineBreaks_append,
              withoutLineBreaks_cons (c := '(') rfl]
            simp only [withoutLineBreaks_append]
            rfl
          rw [hsplit]
          exact .group combinator members keyword _ _ _ _ hkeyword (isGap_withoutLineBreaks hbefore)
            (isGap_withoutLineBreaks hinner) (hmembers.withoutLineBreaks hall)
            (isGap_withoutLineBreaks hafter)

/-- Spellings without their line breaks are spellings of the same filters. -/
theorem Spellings.withoutLineBreaks {filters : List Filter} {text : List Char}
    (h : Spellings filters text) (hwell : ∀ filter ∈ filters, WellFormed filter) :
    Spellings filters (withoutLineBreaks text) := by
  cases h with
  | last filter text hfilter =>
      exact .last filter _ (hfilter.withoutLineBreaks (List.forall_mem_singleton.mp hwell))
  | more filter text before after filters rest hfilter hbefore hafter hrest =>
      obtain ⟨hwellFirst, hwellRest⟩ := List.forall_mem_cons.mp hwell
      have hfirst := hfilter.withoutLineBreaks hwellFirst
      have hothers := hrest.withoutLineBreaks hwellRest
      have hsplit : withoutLineBreaks (text ++ (before ++ (',' :: (after ++ rest)))) =
          withoutLineBreaks text ++ (withoutLineBreaks before ++ (',' :: (withoutLineBreaks after ++
            withoutLineBreaks rest))) := by
        rw [withoutLineBreaks_append, withoutLineBreaks_append,
          withoutLineBreaks_cons (c := ',') rfl, withoutLineBreaks_append]
      rw [hsplit]
      exact .more filter _ _ _ filters _ hfirst (isGap_withoutLineBreaks hbefore)
        (isGap_withoutLineBreaks hafter) hothers

end

mutual

/-- A spelling is a layout of a tree, at any offset, whose filter is the given one. -/
theorem Spelling.exists_layout {filter : Filter} {text : List Char} (h : Spelling filter text)
    (offset : Nat) (source : String) :
    ∃ node pieces, Layout offset node pieces ∧ written pieces = text ∧
      ofNode AttributeId.resolve source node = .ok filter ∧ node.depth = filter.depth := by
  cases h with
  | condition single id name before after quote raw hname hid htext hbefore hafter hraw =>
      have hsymbol : IsSymbol single.operator.symbol.toList :=
        ⟨single.operator, Operator.mem_all _, rfl⟩
      refine ⟨_, _, .condition offset name before _ after quote raw hname hbefore hsymbol hafter
        hraw.isToken, ?_, ?_, rfl⟩
      · simp [comparison]
      · refine ofNode_condition_eq_ok_iff.mpr ⟨id, single.operator, hid, ?_, ?_⟩
        · rw [String.ofList_toList]
          exact Operator.ofSymbol?_symbol _
        · rw [htext, hraw.content]
  | group combinator members keyword before inner text after hkeyword hbefore hinner hmembers
      hafter =>
      obtain ⟨nodes, pieces, hlayouts, hwritten, hfilters, hdepth⟩ :=
        hmembers.exists_layouts (offset + extent (opening keyword before inner)) source
      refine ⟨_, _, .group offset keyword before inner nodes pieces after
        ⟨combinator, combinator.mem_all, hkeyword⟩ hbefore hinner hlayouts hafter, ?_, ?_, ?_⟩
      · simp [opening, closing, hwritten]
      · exact ofNode_group_eq_ok_iff.mpr
          ⟨combinator, members, Combinator.ofKeyword?_of_fold hkeyword, hfilters, rfl⟩
      · rw [Node.depth, depth, hdepth]

/-- Spellings are layouts of nodes whose filters are the given ones. -/
theorem Spellings.exists_layouts {filters : List Filter} {text : List Char}
    (h : Spellings filters text) (offset : Nat) (source : String) :
    ∃ nodes pieces, Layouts offset nodes pieces ∧ written pieces = text ∧
      ofNodes AttributeId.resolve source nodes = .ok filters ∧
      Node.depthAll nodes = depthAll filters := by
  cases h with
  | last filter text hfilter =>
      obtain ⟨node, pieces, hlayout, hwritten, hnode, hdepth⟩ :=
        hfilter.exists_layout offset source
      refine ⟨[node], pieces, .last offset node pieces hlayout, hwritten, ?_, ?_⟩
      · exact ofNodes_cons_eq_ok_iff.mpr ⟨filter, [], hnode, rfl, rfl⟩
      · rw [Node.depthAll, depthAll, hdepth]
        rfl
  | more filter text before after filters rest hfilter hbefore hafter hrest =>
      obtain ⟨node, first, hlayout, hfirst, hnode, hdepth⟩ := hfilter.exists_layout offset source
      obtain ⟨nodes, pieces, hlayouts, hpieces, hnodes, hdepths⟩ :=
        hrest.exists_layouts (offset + extent (first ++ separator before after)) source
      refine ⟨node :: nodes, _, .more offset node first before after nodes pieces hlayout hbefore
        hafter hlayouts, ?_, ?_, ?_⟩
      · simp [separator, hfirst, hpieces]
      · exact ofNodes_cons_eq_ok_iff.mpr ⟨filter, filters, hnode, hnodes, rfl⟩
      · rw [Node.depthAll, depthAll, hdepth, hdepths]

end

/-- Every spelling of a well-formed filter whose groups nest no deeper than they may, with blank
space around it and line breaks anywhere, is read as that filter. -/
theorem parse_spelling (filter : Filter) (hwell : WellFormed filter)
    (hdepth : filter.depth ≤ groupLimit) (before body after : List Char) (given : String)
    (hbody : Spelling filter body) (hbefore : IsGap before) (hafter : IsGap after)
    (hgiven : LineBreaksInserted (before ++ (body ++ after)) given.toList) :
    parse given = .ok filter := by
  -- what is read is the spelling without the line breaks that its own gaps may hold
  have hclean := hbody.withoutLineBreaks hwell
  obtain ⟨root, pieces, hlayout, hwritten, hfilter, hnodes⟩ :=
    hclean.exists_layout 0 (normalize given)
  have hbegin : Text.beginsWith Text.isBlank (written pieces) = false := by
    have hname := hlayout.beginsWith_isNameCharacter []
    rw [List.append_nil] at hname
    exact beginsWith_isBlank_of_isNameCharacter hname
  have hnormalize : (normalize given).toList = written pieces := by
    rw [Expression.normalize, String.toList_ofList]
    show Text.trim (withoutLineBreaks given.toList) = _
    rw [hgiven.withoutLineBreaks, withoutLineBreaks_append, withoutLineBreaks_append, ← hwritten]
    refine Text.trim_between (isGap_withoutLineBreaks hbefore) (isGap_withoutLineBreaks hafter)
      hlayout.written_ne_nil hbegin ?_
    rw [hwritten]
    exact hclean.ends
  have hread := hlayout.parse (by omega) hnormalize.symm
  exact parse_eq_ok_iff.mpr ⟨_, hread, hfilter⟩

/-- A choice between two conditions. -/
def alternative : Filter :=
  .group .disjunction
    [.condition ⟨"0x1006e", .equals, "it's"⟩, .condition ⟨"-0x1", .atMost, "/x"⟩]

/-- A catalogue name and a binary literal, a value in double quotes and a bare one, and line breaks
inside a keyword and a symbol. -/
theorem parse_spelling_alternative :
    WellFormed alternative ∧ alternative.depth ≤ groupLimit ∧
      parse "o\rR (Model_NAME = \"it's\",-0b1<\n=/x)\n" = .ok alternative := by
  have hname : IsIdentifierText "0x1006e" := isIdentifierText_text Attribute.modelName.id
  have hone : IsIdentifierText "-0x1" :=
    (show AttributeId.text ⟨-1, by decide, by decide⟩ = "-0x1" by decide) ▸ isIdentifierText_text _
  have hwell : WellFormed alternative := by
    refine .group _ _ (by decide) ?_
    intro member hmember
    simp only [List.mem_cons, List.not_mem_nil, or_false] at hmember
    rcases hmember with rfl | rfl
    · exact .condition _ hname ⟨by decide, by decide, by decide⟩
    · exact .condition _ hone ⟨by decide, by decide, by decide⟩
  have hfirst : Spelling (.condition ⟨"0x1006e", .equals, "it's"⟩) "Model_NAME = \"it's\"".toList :=
    .condition _ Attribute.modelName.id "Model_NAME".toList [' '] [' '] .double _ (by decide) rfl
      rfl (by decide) (by decide) (.double (by decide))
  have hsecond : Spelling (.condition ⟨"-0x1", .atMost, "/x"⟩) "-0b1<=/x".toList :=
    .condition _ ⟨-1, by decide, by decide⟩ "-0b1".toList [] [] .bare _ (by decide) rfl rfl
      (by decide) (by decide) (.bare (by decide))
  have hbody : Spelling alternative "oR (Model_NAME = \"it's\",-0b1<=/x)".toList :=
    .group .disjunction _ ['o', 'R'] [' '] [] _ [] (by decide) (by decide) (by decide)
      (.more _ _ [] [] _ _ hfirst (by decide) (by decide) (.last _ _ hsecond)) (by decide)
  have hclean : [] ++ ("oR (Model_NAME = \"it's\",-0b1<=/x)".toList ++ []) =
      withoutLineBreaks "o\rR (Model_NAME = \"it's\",-0b1<\n=/x)\n".toList := by
    decide
  have hgiven := lineBreaksInserted_withoutLineBreaks
    "o\rR (Model_NAME = \"it's\",-0b1<\n=/x)\n".toList
  rw [← hclean] at hgiven
  exact ⟨hwell, by decide,
    parse_spelling _ hwell (by decide) [] _ [] _ hbody (by decide) (by decide) hgiven⟩

end Filter

end ModelQuery

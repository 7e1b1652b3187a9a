import ModelQuery.Proofs.Attribute.LetterCase
import ModelQuery.Proofs.Expression.LetterCase

/-!
# What is read is a spelling

A text has a filter exactly if what is left of it when it is normalized is a spelling of the filter,
and no more groups are nested than may be (`parse_eq_ok_iff_spelling`). One direction is that every
spelling is read; the other is that what a reader of expressions accepts is a spelling of the filter
that is made of it (`spelling_of_layout`). So facts about texts and their filters can be proved by
induction on spellings, which know nothing of offsets.
-/

namespace ModelQuery.Filter

open Expression

/-- A value that is written without quotes or between two of them is a spelling of its content. -/
theorem valueSpelling_of_isToken {quote : Quote} {raw : List Char}
    (h : quote.construct.IsToken raw) :
    ValueSpelling (WrittenValue.content ⟨quote, String.ofList raw⟩).toList quote raw := by
  cases quote with
  | bare =>
      rw [WrittenValue.content, Quote.character?, String.toList_ofList]
      exact .bare h
  | single =>
      obtain ⟨body, hbody, rfl⟩ := h
      rw [WrittenValue.content_quoted rfl, String.toList_ofList]
      exact .single hbody
  | double =>
      obtain ⟨body, hbody, rfl⟩ := h
      rw [WrittenValue.content_quoted rfl, String.toList_ofList]
      exact .double hbody

mutual

/-- What is written for a node in another letter case is a spelling of the filter of the node. -/
theorem spelling_of_recased {source : String} {offset : Nat} {node : Node}
    {pieces recased : List Piece} {filter : Filter} (h : Layout offset node pieces)
    (hcase : Recased pieces recased)
    (hfilter : ofNode AttributeId.resolve source node = .ok filter) :
    Spelling filter (written recased) := by
  cases h with
  | condition _ name before symbol after quote raw hname hbefore hsymbol hafter hraw =>
      obtain ⟨other, hfold, rfl⟩ := recased_comparison hcase
      obtain ⟨operator, -, rfl⟩ := hsymbol
      obtain ⟨id, found, hid, hfound, rfl⟩ := ofNode_condition_eq_ok_iff.mp hfilter
      rw [String.ofList_toList, Operator.ofSymbol?_symbol] at hfound
      obtain rfl := Option.some.inj hfound
      have hother : AttributeId.resolve (String.ofList other) = .ok id := by
        refine (AttributeId.resolve_eq_ok_iff_of_fold ?_).mpr hid
        rw [String.toList_ofList, String.toList_ofList, hfold]
      have hspelling := Spelling.condition
        ⟨id.text, operator, WrittenValue.content ⟨quote, String.ofList raw⟩⟩ id other before after
        quote raw (isName_of_fold hfold hname) hother rfl hbefore hafter
        (valueSpelling_of_isToken hraw)
      simpa [comparison] using hspelling
  | group _ keyword before inner items pieces after hkeyword hbefore hinner hitems hafter =>
      obtain ⟨front, _, rfl, hfront, hclosing⟩ := hcase.exists_append
      obtain ⟨_, inside, rfl, hopening, hinside⟩ := hfront.exists_append
      obtain ⟨other, hsame, rfl⟩ := recased_opening hopening
      obtain rfl := recased_closing hclosing
      obtain ⟨combinator, -, hfold⟩ := hkeyword
      obtain ⟨found, members, hfound, hmembers, rfl⟩ := ofNode_group_eq_ok_iff.mp hfilter
      rw [Combinator.ofKeyword?_of_fold hfold] at hfound
      obtain rfl := Option.some.inj hfound
      have hspelling := Spelling.group combinator members other before inner (written inside)
        after (hsame.trans hfold) hbefore hinner (spellings_of_recased hitems hinside hmembers)
        hafter
      simpa [opening, closing] using hspelling

/-- What is written for several nodes in another letter case is a spelling of their filters. -/
theorem spellings_of_recased {source : String} {offset : Nat} {nodes : List Node}
    {pieces recased : List Piece} {filters : List Filter} (h : Layouts offset nodes pieces)
    (hcase : Recased pieces recased)
    (hfilters : ofNodes AttributeId.resolve source nodes = .ok filters) :
    Spellings filters (written recased) := by
  cases h with
  | last _ node pieces hnode =>
      obtain ⟨filter, further, hfilter, hnone, rfl⟩ := ofNodes_cons_eq_ok_iff.mp hfilters
      cases hnone
      exact .last filter _ (spelling_of_recased hnode hcase hfilter)
  | more _ node first before after nodes pieces hnode hbefore hafter hnodes =>
      obtain ⟨front, rest, rfl, hfront, hrest⟩ := hcase.exists_append
      obtain ⟨other, _, rfl, hother, hseparator⟩ := hfront.exists_append
      obtain rfl := recased_separator hseparator
      obtain ⟨filter, further, hfilter, hfurther, rfl⟩ := ofNodes_cons_eq_ok_iff.mp hfilters
      have hspelling := Spellings.more filter (written other) before after further (written rest)
        (spelling_of_recased hnode hother hfilter) hbefore hafter
        (spellings_of_recased hnodes hrest hfurther)
      simpa [separator] using hspelling

end

/-- What is written for a node is a spelling of the filter of the node. -/
theorem spelling_of_layout {source : String} {offset : Nat} {node : Node} {pieces : List Piece}
    {filter : Filter} (h : Layout offset node pieces)
    (hfilter : ofNode AttributeId.resolve source node = .ok filter) :
    Spelling filter (written pieces) :=
  spelling_of_recased h (.refl pieces) hfilter

/-- An expression that is read is a spelling of its filter, and the groups of the filter nest as
those of the expression do. -/
theorem spelling_of_read {given source : String} {tree : Expression} {filter : Filter}
    (hread : Expression.parse given = .ok tree)
    (hfilter : ofNode AttributeId.resolve source tree.root = .ok filter) :
    Spelling filter (normalize given).toList ∧ filter.depth = tree.root.depth := by
  obtain ⟨-, -, pieces, hlayout, hwritten⟩ := layout_of_parse hread
  have hbreaks : ∀ c ∈ written pieces, Text.isLineBreak c = false := by
    intro c hc
    rw [hwritten] at hc
    exact isLineBreak_of_mem_normalize hc
  obtain ⟨-, hdepth⟩ := wellFormed_of_layout hlayout hbreaks hfilter
  rw [← hwritten]
  exact ⟨spelling_of_layout hlayout hfilter, hdepth⟩

/-- A text has a filter if it is a spelling of the filter when it is normalized, with no more groups
inside one another than there may be, and only then. -/
theorem parse_eq_ok_iff_spelling {given : String} {filter : Filter} :
    parse given = .ok filter ↔
      Spelling filter (normalize given).toList ∧ filter.depth ≤ groupLimit := by
  rw [parse_eq_ok_iff]
  constructor
  · rintro ⟨tree, hread, hfilter⟩
    obtain ⟨-, hdepth, -⟩ := layout_of_parse hread
    obtain ⟨hspelling, heq⟩ := spelling_of_read hread hfilter
    exact ⟨hspelling, by omega⟩
  · rintro ⟨hspelling, hdepth⟩
    obtain ⟨root, pieces, hlayout, hwritten, hfilter, hnodes⟩ :=
      hspelling.exists_layout 0 (normalize given)
    exact ⟨_, hlayout.parse (by omega) hwritten, hfilter⟩

end ModelQuery.Filter

import ModelQuery.Proofs.Attribute.Hexadecimal
import ModelQuery.Proofs.Expression.Exactness
import ModelQuery.Proofs.Expression.Normal
import ModelQuery.Proofs.Filter.Translation

/-!
# Filters that texts describe

Every filter that a text describes is well formed. Nothing checks this: the grammar has no group
without members and no value with the quotes of both kinds, a normalized text has no line breaks,
and an identifier is written in one way only. The proof is an induction over the layout of the tree
that was read (`wellFormed_of_layout`).
-/

namespace ModelQuery

/-- The text is the canonical form of a signed 64-bit number. -/
def IsIdentifierText (text : String) : Prop :=
  ∃ number : Int, -0x8000000000000000 ≤ number ∧ number ≤ 0x7fffffffffffffff ∧
    IsCanonicalHex text number

/-- No line break stands in the value, and quotes of one kind at most. -/
structure IsPlainValue (value : String) : Prop where
  no_return : '\r' ∉ value.toList
  no_feed : '\n' ∉ value.toList
  one_quote : ¬ ('\'' ∈ value.toList ∧ '"' ∈ value.toList)

/-- No character of a plain value is a line break. -/
theorem IsPlainValue.isLineBreak_eq_false {value : String} (h : IsPlainValue value) {c : Char}
    (hc : c ∈ value.toList) : Text.isLineBreak c = false := by
  by_cases hbreak : Text.isLineBreak c = true
  · simp only [Text.isLineBreak, Bool.or_eq_true, beq_iff_eq] at hbreak
    rcases hbreak with rfl | rfl
    · exact absurd hc h.no_return
    · exact absurd hc h.no_feed
  · exact Bool.eq_false_iff.mpr hbreak

namespace Filter

/-- Throughout the filter, identifiers are in their canonical form, values are plain, and groups
have members. -/
inductive WellFormed : Filter → Prop where
  | condition (single : Condition) :
      IsIdentifierText single.id → IsPlainValue single.value → WellFormed (.condition single)
  | group (combinator : Combinator) (members : List Filter) :
      members ≠ [] → (∀ member ∈ members, WellFormed member) →
      WellFormed (.group combinator members)

mutual

/-- How many groups of the filter are nested in one another. -/
def depth : Filter → Nat
  | .condition _ => 0
  | .group _ members => depthAll members + 1

/-- How many groups of the filters are nested in one another, in the deepest of them. -/
def depthAll : List Filter → Nat
  | [] => 0
  | member :: members => max (depth member) (depthAll members)

end

/-- The text of an identifier is the canonical form of its number. -/
theorem isIdentifierText_text (id : AttributeId) : IsIdentifierText id.text :=
  ⟨id.value, id.least, Int.le_of_lt_add_one id.most, isCanonicalHex_hexText id.value⟩

/-- What stands between two quotes of one kind is a plain value, if it has no line breaks. -/
theorem isPlainValue_of_notMem {quote : Char} {body : List Char}
    (hquote : quote = '\'' ∨ quote = '"') (hbody : quote ∉ body)
    (hbreaks : ∀ c ∈ body, Text.isLineBreak c = false) : IsPlainValue (String.ofList body) where
  no_return h := by
    rw [String.toList_ofList] at h
    exact absurd (hbreaks _ h) (by decide)
  no_feed h := by
    rw [String.toList_ofList] at h
    exact absurd (hbreaks _ h) (by decide)
  one_quote h := by
    rw [String.toList_ofList] at h
    rcases hquote with rfl | rfl
    · exact hbody h.1
    · exact hbody h.2

/-- The content of a written value is plain if the value has no line breaks. -/
theorem isPlainValue_content {quote : Quote} {raw : List Char}
    (hraw : quote.construct.IsToken raw) (hbreaks : ∀ c ∈ raw, Text.isLineBreak c = false) :
    IsPlainValue (WrittenValue.content ⟨quote, String.ofList raw⟩) := by
  cases quote with
  | bare =>
      have hquote : '\'' ∉ raw := fun h ↦ absurd (hraw.2 _ h) (by decide)
      exact isPlainValue_of_notMem (Or.inl rfl) hquote hbreaks
  | single =>
      obtain ⟨body, hbody, rfl⟩ := hraw
      rw [WrittenValue.content_quoted rfl]
      exact isPlainValue_of_notMem (Or.inl rfl) hbody (fun c hc ↦ hbreaks c (by simp [hc]))
  | double =>
      obtain ⟨body, hbody, rfl⟩ := hraw
      rw [WrittenValue.content_quoted rfl]
      exact isPlainValue_of_notMem (Or.inr rfl) hbody (fun c hc ↦ hbreaks c (by simp [hc]))

open Expression

mutual

/-- The filter of a node that is written without line breaks is well formed, and its groups nest as
those of the node do. -/
theorem wellFormed_of_layout {resolver : Resolver} {text : String} {offset : Nat} {node : Node}
    {pieces : List Piece} {filter : Filter} (h : Layout offset node pieces)
    (hbreaks : ∀ c ∈ written pieces, Text.isLineBreak c = false)
    (hfilter : ofNode resolver text node = .ok filter) :
    WellFormed filter ∧ filter.depth = node.depth := by
  cases h with
  | condition _ name before symbol after quote raw _ _ _ _ hraw =>
      have hrawBreaks : ∀ c ∈ raw, Text.isLineBreak c = false := by
        intro c hc
        exact hbreaks c (by simp [comparison, hc])
      obtain ⟨id, found, -, -, rfl⟩ := ofNode_condition_eq_ok_iff.mp hfilter
      exact ⟨.condition _ (isIdentifierText_text id) (isPlainValue_content hraw hrawBreaks), rfl⟩
  | group _ keyword before inner items pieces after _ _ _ hitems =>
      have hitemBreaks : ∀ c ∈ written pieces, Text.isLineBreak c = false := by
        intro c hc
        exact hbreaks c (by simp [hc])
      obtain ⟨combinator, members, -, hmembers, rfl⟩ := ofNode_group_eq_ok_iff.mp hfilter
      obtain ⟨hne, hall, hdepth⟩ := wellFormed_of_layouts hitems hitemBreaks hmembers
      refine ⟨.group combinator members hne hall, ?_⟩
      rw [depth, Node.depth, hdepth]

/-- The filters of nodes that are written without line breaks are well formed. -/
theorem wellFormed_of_layouts {resolver : Resolver} {text : String} {offset : Nat}
    {nodes : List Node} {pieces : List Piece} {filters : List Filter}
    (h : Layouts offset nodes pieces)
    (hbreaks : ∀ c ∈ written pieces, Text.isLineBreak c = false)
    (hfilters : ofNodes resolver text nodes = .ok filters) :
    filters ≠ [] ∧ (∀ filter ∈ filters, WellFormed filter) ∧
      depthAll filters = Node.depthAll nodes := by
  cases h with
  | last _ node pieces hnode =>
      obtain ⟨filter, further, hfilter, hnone, rfl⟩ := ofNodes_cons_eq_ok_iff.mp hfilters
      cases hnone
      obtain ⟨hwell, hdepth⟩ := wellFormed_of_layout hnode hbreaks hfilter
      refine ⟨List.cons_ne_nil _ _, by simpa using hwell, ?_⟩
      rw [depthAll, Node.depthAll, hdepth]
      rfl
  | more _ node first before after nodes pieces hnode _ _ hnodes =>
      have hfirstBreaks : ∀ c ∈ written first, Text.isLineBreak c = false := by
        intro c hc
        exact hbreaks c (by simp [hc])
      have hrestBreaks : ∀ c ∈ written pieces, Text.isLineBreak c = false := by
        intro c hc
        exact hbreaks c (by simp [hc])
      obtain ⟨filter, further, hfilter, hfurther, rfl⟩ := ofNodes_cons_eq_ok_iff.mp hfilters
      obtain ⟨hwell, hdepth⟩ := wellFormed_of_layout hnode hfirstBreaks hfilter
      obtain ⟨-, hall, hdepths⟩ := wellFormed_of_layouts hnodes hrestBreaks hfurther
      refine ⟨List.cons_ne_nil _ _, List.forall_mem_cons.mpr ⟨hwell, hall⟩, ?_⟩
      rw [depthAll, Node.depthAll, hdepth, hdepths]

end

/-- Every filter that a text describes is well formed, and its groups nest no deeper than they
may. -/
theorem wellFormed_of_parse (text : String) (filter : Filter) (h : parse text = .ok filter) :
    WellFormed filter ∧ filter.depth ≤ groupLimit := by
  obtain ⟨expression, hread, hfilter⟩ := parse_eq_ok_iff.mp h
  obtain ⟨-, hdepth, pieces, hlayout, hwritten⟩ := layout_of_parse hread
  have hbreaks : ∀ c ∈ written pieces, Text.isLineBreak c = false := by
    intro c hc
    rw [hwritten] at hc
    exact isLineBreak_of_mem_normalize hc
  obtain ⟨hwell, heq⟩ := wellFormed_of_layout hlayout hbreaks hfilter
  exact ⟨hwell, by omega⟩

/-- The negation of one condition on the attribute with the number -31. -/
def negatedCondition : Filter :=
  .group .negation [.condition ⟨"-0x1f", .equals, "ab"⟩]

/-- A literal in another spelling and a value with a line break in it become canonical. -/
theorem wellFormed_of_parse_negatedCondition :
    parse "NOT(-0X1_f='a\nb')" = .ok negatedCondition ∧
      WellFormed negatedCondition ∧ negatedCondition.depth ≤ groupLimit := by
  have hitem : Layout 4 (.condition "-0X1_f" "=" ⟨.single, "'ab'"⟩ 10)
      (comparison ['-', '0', 'X', '1', '_', 'f'] [] ['='] [] .single ['\'', 'a', 'b', '\'']) :=
    .condition 4 _ [] _ [] .single _ (by decide) (by decide) (by decide) (by decide)
      ⟨['a', 'b'], by decide, rfl⟩
  have hlayout := Layout.group 0 ['N', 'O', 'T'] [] [] _ _ [] (by decide) (by decide) (by decide)
    (.last 4 _ _ hitem) (by decide)
  have hread : Expression.parse "NOT(-0X1_f='a\nb')" = .ok _ :=
    hlayout.parse (by decide) (by decide)
  have hparse : parse "NOT(-0X1_f='a\nb')" = .ok negatedCondition :=
    parse_eq_ok_iff.mpr ⟨_, hread, rfl⟩
  exact ⟨hparse, wellFormed_of_parse _ _ hparse⟩

end Filter

end ModelQuery

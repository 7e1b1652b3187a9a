import ModelQuery.Proofs.Json.Reading
import ModelQuery.Search

/-!
# Filters and searches are read back from their JSON

`Filter.ofJson?` and `Search.ofJson?` undo `Filter.toJson` and `Search.toJson`: a key tells a
condition from a group, since no operator has the name of a combinator
(`ofCanonicalName?_keyword`). Together with the reader of JSON they are decoders of the texts of
filters and searches. The main result is that neither layout loses anything.
-/

namespace ModelQuery

namespace Filter

mutual

/-- The filter whose form a value is. -/
def ofJson? : Json → Option Filter
  | .object [(key, .array items)] =>
      match Operator.ofCanonicalName? key, Combinator.ofKeyword? key with
      | some operator, _ =>
          match items with
          | [.text id, .text value] => some (.condition ⟨id, operator, value⟩)
          | _ => none
      | none, some combinator => (ofJsonAll? items).map (.group combinator)
      | none, none => none
  | _ => none

/-- The filters whose forms the values are, in order. -/
def ofJsonAll? : List Json → Option (List Filter)
  | [] => some []
  | item :: items => do
      let filter ← ofJson? item
      let filters ← ofJsonAll? items
      pure (filter :: filters)

end

/-- The filter that a JSON text describes. -/
def decode? (text : String) : Option Filter :=
  Json.read? text >>= ofJson?

/-- The keyword of a combinator is no name of an operator. -/
theorem ofCanonicalName?_keyword (combinator : Combinator) :
    Operator.ofCanonicalName? combinator.keyword = none := by
  cases combinator with
  | conjunction => rfl
  | disjunction => rfl
  | negation => rfl

/-- A combinator is found by its keyword. -/
theorem ofKeyword?_keyword (combinator : Combinator) :
    Combinator.ofKeyword? combinator.keyword = some combinator := by
  cases combinator with
  | conjunction => rfl
  | disjunction => rfl
  | negation => rfl

mutual

/-- A filter is read back from its form. -/
theorem ofJson?_toJson (filter : Filter) : ofJson? (toJson filter) = some filter := by
  match filter with
  | .condition ⟨id, operator, value⟩ =>
      simp only [toJson, ofJson?, Operator.ofCanonicalName?_canonicalName]
  | .group combinator members =>
      simp only [toJson, ofJson?, ofCanonicalName?_keyword, ofKeyword?_keyword,
        ofJsonAll?_toJsonAll members]
      rfl

/-- Filters are read back from their forms. -/
theorem ofJsonAll?_toJsonAll (filters : List Filter) :
    ofJsonAll? (toJsonAll filters) = some filters := by
  match filters with
  | [] => rfl
  | filter :: filters =>
      simp only [toJsonAll, ofJsonAll?, ofJson?_toJson filter, ofJsonAll?_toJsonAll filters]
      rfl

end

end Filter

namespace Search

/-- A text is the text of a value. -/
def textOf? : Json → Option String
  | .text value => some value
  | _ => none

/-- The search whose form a value is. -/
def ofJson? : Json → Option Search
  | .object [("filter", filter), ("requested_attrs", .array attributes),
      ("throttle_size", .number size), ("devices_only", .boolean devicesOnly)] => do
      let filter ← Filter.ofJson? filter
      let attributes ← attributes.mapM textOf?
      if size < 0x100000000 then
        pure ⟨filter, attributes, UInt32.ofNat size, devicesOnly⟩
      else none
  | _ => none

/-- The search that a JSON text describes. -/
def decode? (text : String) : Option Search :=
  Json.read? text >>= ofJson?

/-- Texts are read back. -/
theorem mapM_textOf? (texts : List String) :
    (texts.map Json.text).mapM textOf? = some texts := by
  induction texts with
  | nil => rfl
  | cons text texts ih =>
      rw [List.map_cons, List.mapM_cons, ih]
      rfl

/-- A search is read back from its form. -/
theorem ofJson?_toJson (search : Search) : ofJson? (toJson search) = some search := by
  have hsize := search.throttleSize.toNat_lt
  simp only [toJson, ofJson?, Filter.ofJson?_toJson, mapM_textOf?]
  simp [hsize]

end Search

/-! ## Losslessness -/

/-- Values are kept in JSON texts without loss, in both layouts: a decoder finds each value in its
text, the texts of different values differ, and the two texts of a value are texts of one JSON
value. -/
structure Json.Lossless {α : Type} (toJson : α → Json) (decode? : String → Option α) : Prop where
  decode?_compact : ∀ value, decode? ((toJson value).render .compact) = some value
  decode?_indented : ∀ value, decode? ((toJson value).render .indented) = some value
  compact_ne : ∀ left right, left ≠ right →
    (toJson left).render .compact ≠ (toJson right).render .compact
  indented_ne : ∀ left right, left ≠ right →
    (toJson left).render .indented ≠ (toJson right).render .indented
  read?_compact : ∀ value, read? ((toJson value).render .compact) = some (toJson value)
  read?_indented : ∀ value, read? ((toJson value).render .indented) = some (toJson value)

/-- A form that can be read back is kept in JSON texts without loss. -/
theorem Json.Lossless.of_ofJson? {α : Type} {toJson : α → Json} {ofJson? : Json → Option α}
    (h : ∀ value, ofJson? (toJson value) = some value) :
    Lossless toJson fun text ↦ read? text >>= ofJson? := by
  have hread : ∀ (layout : Layout), layout.IsBlank → ∀ value,
      (read? ((toJson value).render layout) >>= ofJson?) = some value := by
    intro layout hblank value
    rw [read?_render layout hblank]
    exact h value
  -- one text has one value, so different values have different texts
  have hne : ∀ (layout : Layout), layout.IsBlank → ∀ left right, left ≠ right →
      (toJson left).render layout ≠ (toJson right).render layout := by
    intro layout hblank left right hleft heq
    have hright := hread layout hblank right
    rw [← heq, hread layout hblank left] at hright
    exact hleft (Option.some.inj hright)
  exact {
    decode?_compact := hread .compact Layout.isBlank_compact
    decode?_indented := hread .indented Layout.isBlank_indented
    compact_ne := hne .compact Layout.isBlank_compact
    indented_ne := hne .indented Layout.isBlank_indented
    read?_compact := fun _ ↦ read?_render .compact Layout.isBlank_compact _
    read?_indented := fun _ ↦ read?_render .indented Layout.isBlank_indented _ }

/-- Neither layout loses anything of a filter or of a search. -/
theorem Json.lossless_toJson :
    Lossless Filter.toJson Filter.decode? ∧ Lossless Search.toJson Search.decode? :=
  ⟨.of_ofJson? Filter.ofJson?_toJson, .of_ofJson? Search.ofJson?_toJson⟩

end ModelQuery

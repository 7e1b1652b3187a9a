import ModelQuery.Proofs.Attribute.Naming
import ModelQuery.Proofs.Search.Appearance

/-!
# Requests that grow

The attributes of a search are texts that resolve again, so they can be the base attributes of
another search, which then requests the same. Attributes that are added to the options come behind
those that are requested already, and one that is among them, under whatever name, adds nothing
(`ofFilter_adding`). `requested_stable` puts this together: a request that is used again or that
grows keeps its attributes and their order.
-/

namespace ModelQuery

/-- Of values that all differ, none is left out. -/
theorem eraseDups_of_nodup {α : Type} [BEq α] [LawfulBEq α] {values : List α}
    (h : values.Nodup) : values.eraseDups = values := by
  induction values with
  | nil => rfl
  | cons value values ih =>
      obtain ⟨hnew, hrest⟩ := List.nodup_cons.mp h
      have hkept : (values.filter fun other ↦ !other == value) = values := by
        rw [List.filter_eq_self]
        intro other hother
        have hne : other ≠ value := fun heq ↦ hnew (heq ▸ hother)
        simpa using hne
      rw [List.eraseDups_cons, hkept, ih hrest]

namespace AttributeId

/-- The texts of identifiers stand for these identifiers. -/
theorem forall₂_text (ids : List AttributeId) :
    List.Forall₂ (fun name id ↦ resolve name = .ok id) (ids.map text) ids := by
  rw [List.forall₂_map_left_iff, List.forall₂_same]
  exact fun id _ ↦ resolve_of_isLiteral id.isLiteral_text

end AttributeId

/-- The names that are added come last. -/
theorem SearchOptions.names_adding (options : SearchOptions) (names : List String) :
    (options.adding names).names = options.names ++ names := by
  simp [SearchOptions.names, SearchOptions.adding]

/-- Names that are added in several goes are added as one list. -/
theorem SearchOptions.foldl_adding (options : SearchOptions) (parts : List (List String)) :
    parts.foldl SearchOptions.adding options = options.adding parts.flatten := by
  induction parts generalizing options with
  | nil => simp [SearchOptions.adding]
  | cons part parts ih =>
      rw [List.foldl_cons, ih]
      simp [SearchOptions.adding]

namespace Search

open AttributeId (resolve)

variable {filter : Filter} {options : SearchOptions} {search : Search} {names : List String}

/-- An identifier is requested if its text is. -/
theorem text_mem_requesting_iff {ids : List AttributeId} {id : AttributeId} :
    id.text ∈ (requesting filter options ids).requestedAttributes ↔ id ∈ ids := by
  rw [requesting, List.mem_map_of_injective AttributeId.text_injective, List.mem_eraseDups]

/-- Attributes that are added come behind those that are requested already, each once, and only
those that are not among them. -/
theorem ofFilter_adding (h : ofFilter filter options = .ok search) {further : List AttributeId}
    (hnames : List.Forall₂ (fun name id ↦ resolve name = .ok id) names further) :
    ∃ added : List AttributeId,
      ofFilter filter (options.adding names) = .ok { search with
        requestedAttributes := search.requestedAttributes ++ added.map AttributeId.text } ∧
      ∀ id, id ∈ added ↔ id ∈ further ∧ id.text ∉ search.requestedAttributes := by
  obtain ⟨ids, hids, rfl⟩ := ofFilter_eq_ok_iff.mp h
  refine ⟨(further.removeAll ids).eraseDups, ofFilter_eq_ok_iff.mpr ⟨ids ++ further, ?_, ?_⟩,
    fun id ↦ ?_⟩
  · rw [SearchOptions.names_adding]
    exact List.rel_append hids hnames
  · simp only [requesting, List.eraseDups_append, List.map_append]
    rfl
  · rw [text_mem_requesting_iff, List.mem_eraseDups]
    simp [List.removeAll]

/-- The attributes of a search, as the only ones of another search, are requested as they stand. -/
theorem ofFilter_again (h : ofFilter filter options = .ok search) {other : Filter}
    {again : SearchOptions} (hnames : again.names = search.requestedAttributes) :
    ∃ repeated, ofFilter other again = .ok repeated ∧
      repeated.requestedAttributes = search.requestedAttributes := by
  obtain ⟨ids, hids, rfl⟩ := ofFilter_eq_ok_iff.mp h
  have hnodup := (AttributeId.firstNamed_eraseDups hids).nodup
  refine ⟨_, ofFilter_eq_ok_iff.mpr ⟨ids.eraseDups, ?_, rfl⟩, ?_⟩
  · rw [hnames]
    exact AttributeId.forall₂_text ids.eraseDups
  · simp only [requesting, eraseDups_of_nodup hnodup]

/-- The base attributes alone lead to a first part of the attributes of a search. -/
theorem ofFilter_base (h : ofFilter filter options = .ok search) :
    ∃ base, ofFilter filter { options with extraAttributes := [] } = .ok base ∧
      base.requestedAttributes <+: search.requestedAttributes := by
  obtain ⟨ids, hids, -⟩ := ofFilter_eq_ok_iff.mp h
  obtain ⟨first, further, -, hfirst, hfurther⟩ := Steps.exists_append hids
  have hbase : ofFilter filter { options with extraAttributes := [] } =
      .ok (requesting filter options first) :=
    ofFilter_eq_ok_iff.mpr ⟨first, by simpa [SearchOptions.names] using hfirst, rfl⟩
  obtain ⟨added, hadded, -⟩ := ofFilter_adding hbase hfurther
  rw [show SearchOptions.adding { options with extraAttributes := [] } options.extraAttributes =
    options from rfl, h] at hadded
  refine ⟨_, hbase, added.map AttributeId.text, ?_⟩
  rw [Except.ok.inj hadded]

/-- A request that is used again or that grows keeps its attributes and their order. As the only
attributes of a search, with whatever filter and other options, the attributes of another one are
requested as they stand; attributes that are among them, under any names, can be added to the
options of a search without any effect; the base attributes alone lead to a first part of the
attributes; further attributes come behind the ones that are there, those that are new and only
those; and it does not matter in how many goes attributes are added. -/
theorem requested_stable (filter : Filter) (options : SearchOptions) (search : Search)
    (h : ofFilter filter options = .ok search) :
    (∀ other again, again.baseAttributes = search.requestedAttributes →
      again.extraAttributes = [] →
      ∃ repeated, ofFilter other again = .ok repeated ∧
        repeated.requestedAttributes = search.requestedAttributes) ∧
    (∀ names,
      (∀ name ∈ names, ∃ id, resolve name = .ok id ∧ id.text ∈ search.requestedAttributes) →
      ofFilter filter (options.adding names) = .ok search) ∧
    (∃ base, ofFilter filter { options with extraAttributes := [] } = .ok base ∧
      base.requestedAttributes <+: search.requestedAttributes) ∧
    (∀ names, (∀ name ∈ names, ∃ id, resolve name = .ok id) →
      ∃ added : List String,
        ofFilter filter (options.adding names) = .ok { search with
          requestedAttributes := search.requestedAttributes ++ added } ∧
        ∀ text, text ∈ added ↔ text ∉ search.requestedAttributes ∧
          ∃ name ∈ names, ∃ id, resolve name = .ok id ∧ id.text = text) ∧
    ∀ (start : SearchOptions) (parts : List (List String)),
      ofFilter filter (parts.foldl SearchOptions.adding start) =
        ofFilter filter (start.adding parts.flatten) := by
  refine ⟨?_, ?_, ofFilter_base h, ?_, ?_⟩
  · intro other again hbase hextra
    refine ofFilter_again h ?_
    rw [SearchOptions.names, hbase, hextra, List.append_nil]
  · intro names hpresent
    obtain ⟨further, hfurther⟩ := Steps.exists_forall₂ hpresent
    have hnames : List.Forall₂ (fun name id ↦ resolve name = .ok id) names further :=
      hfurther.imp fun _ _ hname ↦ hname.1
    obtain ⟨added, hadded, hmem⟩ := ofFilter_adding h hnames
    have hnone : added = [] := by
      refine List.eq_nil_iff_forall_not_mem.mpr fun id hid ↦ ?_
      obtain ⟨hid, hnew⟩ := (hmem id).mp hid
      obtain ⟨name, hname⟩ := Steps.exists_of_mem hfurther.flip hid
      exact hnew hname.2
    simpa [hnone] using hadded
  · intro names hresolved
    obtain ⟨further, hfurther⟩ := Steps.exists_forall₂ hresolved
    obtain ⟨added, hadded, hmem⟩ := ofFilter_adding h hfurther
    refine ⟨added.map AttributeId.text, hadded, fun text ↦ ?_⟩
    simp only [List.mem_map, hmem, AttributeId.mem_iff_exists_name hfurther]
    constructor
    · rintro ⟨id, ⟨⟨name, hname, hid⟩, hnew⟩, rfl⟩
      exact ⟨hnew, name, hname, id, hid, rfl⟩
    · rintro ⟨hnew, name, hname, id, hid, rfl⟩
      exact ⟨id, ⟨⟨name, hname, hid⟩, hnew⟩, rfl⟩
  · intro start parts
    rw [SearchOptions.foldl_adding]

/-- A catalogued attribute and the least identifier, each under two names. The names that are added
first stand for the same two attributes, and of those that are added next the last one is new. -/
theorem requested_stable_least :
    ∃ search, ofFilter (.condition ⟨"0x1006e", .contains, "lab"⟩)
        ⟨["Model_Name"], ["-9223372036854775808", "0x1006E"], 0, true⟩ = .ok search ∧
      search.requestedAttributes = ["0x1006e", "-0x8000000000000000"] ∧
      (∃ repeated, ofFilter (.condition ⟨"0x11d42", .equals, "1"⟩)
          ⟨search.requestedAttributes, [], 7, false⟩ = .ok repeated ∧
        repeated.requestedAttributes = search.requestedAttributes) ∧
      ofFilter (.condition ⟨"0x1006e", .contains, "lab"⟩) ⟨["Model_Name"],
        ["-9223372036854775808", "0x1006E", "-0x8000_0000_0000_0000", "MODEL_NAME"], 0, true⟩ =
          .ok search ∧
      ∃ added, ofFilter (.condition ⟨"0x1006e", .contains, "lab"⟩) ⟨["Model_Name"],
          ["-9223372036854775808", "0x1006E", "model_name", "0b11"], 0, true⟩ =
            .ok { search with requestedAttributes := search.requestedAttributes ++ added } ∧
        "0x3" ∈ added := by
  have hmade : ofFilter (.condition ⟨"0x1006e", .contains, "lab"⟩)
      ⟨["Model_Name"], ["-9223372036854775808", "0x1006E"], 0, true⟩ =
        .ok ⟨.condition ⟨"0x1006e", .contains, "lab"⟩, ["0x1006e", "-0x8000000000000000"],
          9999, true⟩ := by
    rfl
  obtain ⟨hagain, hpresent, -, hfurther, -⟩ := requested_stable _ _ _ hmade
  have hname : resolve "model_name" = .ok ⟨0x1006e, by decide, by decide⟩ := by decide +kernel
  have hleast : resolve "-0x8000_0000_0000_0000" = .ok ⟨-2 ^ 63, by decide, by decide⟩ := by
    decide +kernel
  have hupper : resolve "MODEL_NAME" = .ok ⟨0x1006e, by decide, by decide⟩ := by decide +kernel
  have hthree : resolve "0b11" = .ok ⟨3, by decide, by decide⟩ := by decide +kernel
  refine ⟨_, hmade, rfl, hagain _ _ rfl rfl, hpresent ["-0x8000_0000_0000_0000", "MODEL_NAME"] ?_,
    ?_⟩
  · simp only [List.forall_mem_cons]
    exact ⟨⟨_, hleast, by decide +kernel⟩, ⟨_, hupper, by decide +kernel⟩, by simp⟩
  · obtain ⟨added, hadded, hmem⟩ := hfurther ["model_name", "0b11"] (by
      simp only [List.forall_mem_cons]
      exact ⟨⟨_, hname⟩, ⟨_, hthree⟩, by simp⟩)
    refine ⟨added, hadded, (hmem "0x3").mpr ⟨by decide, "0b11", by simp, _, hthree, ?_⟩⟩
    decide +kernel

end Search

end ModelQuery

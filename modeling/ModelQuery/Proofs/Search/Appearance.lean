import Mathlib.Data.List.Induction
import Mathlib.Data.List.Nodup
import ModelQuery.Proofs.Search.Requesting

/-!
# Attributes in order of first appearance

A search requests the attributes that its options name: each identifier once, however many names of
it there are, in the order in which the first names of the identifiers come (`FirstNamed`). Values
are compared as texts when the list is made, and `ofFilter_exact` says what the list is in terms of
numbers; it also says which searches cannot be made, and which name is to blame.
-/

namespace ModelQuery

/-- The values of which only the first of equal ones are left come in the order of their first
places. -/
theorem pairwise_idxOf_eraseDups {α : Type} [BEq α] [LawfulBEq α] (values : List α) :
    values.eraseDups.Pairwise fun left right ↦ values.idxOf left < values.idxOf right := by
  -- from the end, since a value that comes last changes no place before it
  induction values using List.reverseRecOn with
  | nil => exact .nil
  | append_singleton values value ih =>
      have hkept : values.eraseDups.Pairwise fun left right ↦
          (values ++ [value]).idxOf left < (values ++ [value]).idxOf right := by
        refine ih.imp_of_mem ?_
        intro left right hleft hright hlt
        rw [List.idxOf_append_of_mem (List.mem_eraseDups.mp hleft),
          List.idxOf_append_of_mem (List.mem_eraseDups.mp hright)]
        exact hlt
      rw [List.eraseDups_append]
      by_cases hseen : value ∈ values
      · simpa [List.removeAll, hseen] using hkept
      · have hnew : ([value].removeAll values).eraseDups = [value] := by
          simp [List.removeAll, hseen, List.eraseDups_cons]
        rw [hnew, List.pairwise_append]
        refine ⟨hkept, List.pairwise_singleton _ _, ?_⟩
        intro left hleft right hright
        obtain rfl := List.mem_singleton.mp hright
        have hmem := List.mem_eraseDups.mp hleft
        rw [List.idxOf_append_of_mem hmem, List.idxOf_append_of_notMem hseen]
        exact Nat.lt_add_right _ (List.idxOf_lt_length_of_mem hmem)

namespace AttributeId

/-- The place of the first of the names that stands for the identifier. -/
def firstPlace (names : List String) (id : AttributeId) : Nat :=
  names.findIdx fun name ↦ resolve name = .ok id

/-- The identifiers are those that the names stand for, each once, in the order in which their first
names come. -/
structure FirstNamed (names : List String) (ids : List AttributeId) : Prop where
  mem_iff : ∀ id, id ∈ ids ↔ ∃ name ∈ names, resolve name = .ok id
  ordered : ids.Pairwise fun left right ↦ firstPlace names left < firstPlace names right

variable {names : List String} {ids others : List AttributeId}

/-- No identifier is listed twice. -/
theorem FirstNamed.nodup (h : FirstNamed names ids) : ids.Nodup := by
  refine h.ordered.imp ?_
  rintro left right hlt rfl
  exact Nat.lt_irrefl _ hlt

/-- The names leave no choice of the identifiers and their order. -/
theorem FirstNamed.unique (h : FirstNamed names ids) (h' : FirstNamed names others) :
    ids = others := by
  refine List.Perm.eq_of_pairwise ?_ h.ordered h'.ordered
    ((List.perm_ext_iff_of_nodup h.nodup h'.nodup).mpr ?_)
  · intro left right _ _ hlt hgt
    exact absurd hgt (Nat.lt_asymm hlt)
  · intro id
    rw [h.mem_iff, h'.mem_iff]

/-- The identifiers that the names stand for are those that one of the names stands for. -/
theorem mem_iff_exists_name (h : List.Forall₂ (fun name id ↦ resolve name = .ok id) names ids)
    (id : AttributeId) : id ∈ ids ↔ ∃ name ∈ names, resolve name = .ok id := by
  induction h with
  | nil => simp
  | cons hfirst _ ih => simp [ih, hfirst, eq_comm]

/-- The first name of an identifier has the place at which the identifier itself comes first. -/
theorem firstPlace_eq_idxOf (h : List.Forall₂ (fun name id ↦ resolve name = .ok id) names ids)
    (id : AttributeId) : firstPlace names id = ids.idxOf id := by
  induction h with
  | nil => rfl
  | cons hfirst _ ih =>
      rw [firstPlace] at ih ⊢
      rw [List.findIdx_cons, List.idxOf_cons, ih, hfirst]
      simp only [Except.ok.injEq, beq_eq_decide]

/-- Where the names stand for the identifiers, the first of equal ones are first named. -/
theorem firstNamed_eraseDups (h : List.Forall₂ (fun name id ↦ resolve name = .ok id) names ids) :
    FirstNamed names ids.eraseDups where
  mem_iff id := by
    rw [List.mem_eraseDups]
    exact mem_iff_exists_name h id
  ordered := by
    simp only [firstPlace_eq_idxOf h]
    exact pairwise_idxOf_eraseDups ids

end AttributeId

/-- The names of all attributes that a search is to request, in the order in which they are
resolved. -/
def SearchOptions.names (options : SearchOptions) : List String :=
  options.baseAttributes ++ options.extraAttributes

namespace Search

open AttributeId (FirstNamed resolve resolveAll)

/-- The search is for the filter and has what the options ask for. Its attributes are the canonical
texts of the identifiers that are named, in order of first appearance. -/
structure IsFor (filter : Filter) (options : SearchOptions) (search : Search) : Prop where
  filter_eq : search.filter = filter
  requested : ∃ ids, FirstNamed options.names ids ∧
    search.requestedAttributes = ids.map AttributeId.text ∧
    ∀ id ∈ ids, IsCanonicalHex id.text id.value
  nodup : search.requestedAttributes.Nodup
  throttleSize_ne_zero : search.throttleSize ≠ 0
  throttleSize_eq : search.throttleSize =
    if options.throttleSize = 0 then defaultThrottleSize else options.throttleSize
  devicesOnly_eq : search.devicesOnly = options.devicesOnly

/-- Options and a filter leave no choice of the search. -/
theorem IsFor.unique {filter : Filter} {options : SearchOptions} {search other : Search}
    (h : IsFor filter options search) (h' : IsFor filter options other) : search = other := by
  obtain ⟨ids, hids, htexts, -⟩ := h.requested
  obtain ⟨others, hothers, hshown, -⟩ := h'.requested
  obtain rfl := hids.unique hothers
  cases search
  cases other
  simp only [mk.injEq]
  exact ⟨h.filter_eq.trans h'.filter_eq.symm, htexts.trans hshown.symm,
    h.throttleSize_eq.trans h'.throttleSize_eq.symm, h.devicesOnly_eq.trans h'.devicesOnly_eq.symm⟩

/-- Base and extra attributes are resolved as one list. -/
theorem ofFilter_eq (filter : Filter) (options : SearchOptions) :
    ofFilter filter options =
      (fun texts ↦ ⟨filter, withoutRepetitions texts,
        if options.throttleSize = 0 then defaultThrottleSize else options.throttleSize,
        options.devicesOnly⟩) <$> resolveAll options.names := by
  unfold ofFilter SearchOptions.names resolveAll
  rw [List.mapM_append]
  cases options.baseAttributes.mapM fun name ↦ AttributeId.text <$> resolve name with
  | error error => rfl
  | ok base =>
      cases options.extraAttributes.mapM fun name ↦ AttributeId.text <$> resolve name with
      | error error => rfl
      | ok extra => rfl

/-- The search for a filter that requests these identifiers, each once. -/
def requesting (filter : Filter) (options : SearchOptions) (ids : List AttributeId) : Search :=
  ⟨filter, ids.eraseDups.map AttributeId.text,
    if options.throttleSize = 0 then defaultThrottleSize else options.throttleSize,
    options.devicesOnly⟩

/-- A search that is made requests the identifiers that the names stand for. -/
theorem ofFilter_eq_ok_iff {filter : Filter} {options : SearchOptions} {search : Search} :
    ofFilter filter options = .ok search ↔
      ∃ ids, List.Forall₂ (fun name id ↦ resolve name = .ok id) options.names ids ∧
        search = requesting filter options ids := by
  rw [ofFilter_eq, Steps.map_eq_ok_iff]
  constructor
  · rintro ⟨texts, htexts, rfl⟩
    obtain ⟨ids, hids, rfl⟩ := AttributeId.resolveAll_eq_ok_iff.mp htexts
    exact ⟨ids, hids, by rw [requesting, withoutRepetitions_map AttributeId.text_injective]⟩
  · rintro ⟨ids, hids, rfl⟩
    exact ⟨_, AttributeId.resolveAll_eq_ok_iff.mpr ⟨ids, hids, rfl⟩,
      by rw [requesting, withoutRepetitions_map AttributeId.text_injective]⟩

/-- Making a search fails where resolving the attributes fails, and with the same error. -/
theorem ofFilter_eq_error_iff {filter : Filter} {options : SearchOptions} {error : Error} :
    ofFilter filter options = .error error ↔
      ∃ before name after, options.names = before ++ name :: after ∧
        (∀ earlier ∈ before, ∃ id, resolve earlier = .ok id) ∧
        resolve name = .error (.unknownAttribute name) ∧ error = .unknownAttribute name := by
  rw [← AttributeId.resolveAll_eq_error_iff, ofFilter_eq, Steps.map_eq_error_iff]

/-- A search is made if every attribute can be resolved. -/
theorem exists_ofFilter {options : SearchOptions}
    (h : ∀ name ∈ options.names, ∃ id, resolve name = .ok id) (filter : Filter) :
    ∃ search, ofFilter filter options = .ok search := by
  cases hmade : ofFilter filter options with
  | ok search => exact ⟨search, rfl⟩
  | error error =>
      obtain ⟨before, name, after, hnames, -, hname, -⟩ := ofFilter_eq_error_iff.mp hmade
      obtain ⟨id, hid⟩ := h name (by simp [hnames])
      rw [hname] at hid
      cases hid

/-- A search that is made is the one that is asked for, and every attribute was resolved. -/
theorem isFor_of_ofFilter {filter : Filter} {options : SearchOptions} {search : Search}
    (h : ofFilter filter options = .ok search) :
    (∀ name ∈ options.names, ∃ id, resolve name = .ok id) ∧ IsFor filter options search := by
  obtain ⟨ids, hids, rfl⟩ := ofFilter_eq_ok_iff.mp h
  have hfirst := AttributeId.firstNamed_eraseDups hids
  refine ⟨fun name hname ↦ Steps.exists_of_mem hids hname, ?_⟩
  exact {
    filter_eq := rfl
    requested := ⟨ids.eraseDups, hfirst, rfl, fun id _ ↦ isCanonicalHex_hexText id.value⟩
    nodup := List.Nodup.map AttributeId.text_injective hfirst.nodup
    throttleSize_ne_zero := by
      show (if options.throttleSize = 0 then defaultThrottleSize else options.throttleSize) ≠ 0
      split
      next => decide
      next hne => exact hne
    throttleSize_eq := rfl
    devicesOnly_eq := rfl }

/-- Making a search fails exactly if some attribute cannot be resolved, and the first such name is
what is wrong; and it succeeds exactly with the search that is asked for. -/
theorem ofFilter_exact (filter : Filter) (options : SearchOptions) :
    ((∃ error, ofFilter filter options = .error error) ↔
      ∃ name ∈ options.names, resolve name = .error (.unknownAttribute name)) ∧
    (∀ error, ofFilter filter options = .error error ↔
      ∃ before name after, options.names = before ++ name :: after ∧
        (∀ earlier ∈ before, ∃ id, resolve earlier = .ok id) ∧
        resolve name = .error (.unknownAttribute name) ∧ error = .unknownAttribute name) ∧
    (∀ search, ofFilter filter options = .ok search ↔
      (∀ name ∈ options.names, ∃ id, resolve name = .ok id) ∧ IsFor filter options search) := by
  refine ⟨⟨?_, ?_⟩, fun error ↦ ofFilter_eq_error_iff, fun search ↦ ⟨isFor_of_ofFilter, ?_⟩⟩
  · rintro ⟨error, hfailed⟩
    obtain ⟨before, name, after, hnames, -, hname, -⟩ := ofFilter_eq_error_iff.mp hfailed
    exact ⟨name, by simp [hnames], hname⟩
  · rintro ⟨name, hmem, hname⟩
    cases hmade : ofFilter filter options with
    | error error => exact ⟨error, rfl⟩
    | ok search =>
        obtain ⟨id, hid⟩ := (isFor_of_ofFilter hmade).1 name hmem
        rw [hname] at hid
        cases hid
  · rintro ⟨hresolved, hsearch⟩
    obtain ⟨made, hmade⟩ := exists_ofFilter hresolved filter
    rw [(isFor_of_ofFilter hmade).2.unique hsearch] at hmade
    exact hmade

end Search

end ModelQuery

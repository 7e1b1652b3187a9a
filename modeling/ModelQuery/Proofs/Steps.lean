import Mathlib.Data.List.Forall2

/-!
# Steps that can fail

What a sequence of steps returns where each of them can fail. Of two steps in a row both succeed or
there is no result (`bind_eq_ok_iff`); a traversal returns the results of all steps, in order
(`mapM_eq_ok_iff`), or the error of the first step that fails (`mapM_eq_error_iff`).
-/

namespace ModelQuery.Steps

variable {α β ε : Type}

/-- Two steps in a row succeed if both of them do. -/
theorem bind_eq_ok_iff {first : Except ε α} {second : α → Except ε β} {result : β} :
    first >>= second = .ok result ↔ ∃ value, first = .ok value ∧ second value = .ok result := by
  cases first <;> simp [bind, Except.bind]

/-- Of two steps in a row the first may fail, or the second behind it. -/
theorem bind_eq_error_iff {first : Except ε α} {second : α → Except ε β} {error : ε} :
    first >>= second = .error error ↔
      first = .error error ∨ ∃ value, first = .ok value ∧ second value = .error error := by
  cases first <;> simp [bind, Except.bind]

/-- What is made of the result of a step does not matter to its errors. -/
theorem map_eq_error_iff {f : α → β} {result : Except ε α} {error : ε} :
    f <$> result = .error error ↔ result = .error error := by
  cases result <;> simp [Functor.map, Except.map]

/-- A result is made of the result of a step. -/
theorem map_eq_ok_iff {f : α → β} {result : Except ε α} {made : β} :
    f <$> result = .ok made ↔ ∃ value, result = .ok value ∧ f value = made := by
  cases result <;> simp [Functor.map, Except.map]

/-- A step succeeds unless it fails with some error. -/
theorem exists_ok_iff {result : Except ε α} :
    (∃ value, result = .ok value) ↔ ∀ error, result ≠ .error error := by
  cases result <;> simp

variable {step : α → Except ε β}

/-- Where two lists agree pairwise, every element of the first has a partner. -/
theorem exists_of_mem {relation : α → β → Prop} {inputs : List α} {results : List β}
    (h : List.Forall₂ relation inputs results) {input : α} (hmem : input ∈ inputs) :
    ∃ result, relation input result := by
  induction h with
  | nil => cases hmem
  | cons hfirst _ ih =>
      rcases List.mem_cons.mp hmem with rfl | hmem
      · exact ⟨_, hfirst⟩
      · exact ih hmem

/-- If every element has a partner, there is a list of partners. -/
theorem exists_forall₂ {relation : α → β → Prop} {inputs : List α}
    (h : ∀ input ∈ inputs, ∃ result, relation input result) :
    ∃ results, List.Forall₂ relation inputs results := by
  induction inputs with
  | nil => exact ⟨[], .nil⟩
  | cons input inputs ih =>
      obtain ⟨⟨result, hresult⟩, hrest⟩ := List.forall_mem_cons.mp h
      obtain ⟨results, hresults⟩ := ih hrest
      exact ⟨result :: results, .cons hresult hresults⟩

/-- A list that agrees with two others in a row has a part for each of them. -/
theorem exists_append {relation : α → β → Prop} {left right : List α} {results : List β}
    (h : List.Forall₂ relation (left ++ right) results) :
    ∃ first second, results = first ++ second ∧ List.Forall₂ relation left first ∧
      List.Forall₂ relation right second := by
  induction left generalizing results with
  | nil => exact ⟨[], results, rfl, .nil, h⟩
  | cons input left ih =>
      obtain ⟨result, further, hresult, hfurther, rfl⟩ := List.forall₂_cons_left_iff.mp h
      obtain ⟨first, second, rfl, hfirst, hsecond⟩ := ih hfurther
      exact ⟨result :: first, second, rfl, .cons hresult hfirst, hsecond⟩

/-- A traversal succeeds with the results of its steps, if all of them succeed, and only then. -/
theorem mapM_eq_ok_iff {inputs : List α} {results : List β} :
    inputs.mapM step = .ok results ↔
      List.Forall₂ (fun input result ↦ step input = .ok result) inputs results := by
  induction inputs generalizing results with
  | nil =>
      rw [List.mapM_nil, List.forall₂_nil_left_iff]
      exact ⟨fun h ↦ (Except.ok.inj h).symm, fun h ↦ h ▸ rfl⟩
  | cons input inputs ih =>
      rw [List.mapM_cons, List.forall₂_cons_left_iff]
      cases hfirst : step input with
      | error error => simp [bind, Except.bind]
      | ok result =>
          cases hrest : inputs.mapM step with
          | error error =>
              simp only [bind, Except.bind, reduceCtorEq, false_iff, not_exists, ← ih, hrest]
              simp
          | ok further => simp [bind, Except.bind, pure, Except.pure, ← ih, hrest, eq_comm]

/-- Behind steps that succeed, a step that fails makes the traversal fail. -/
theorem mapM_eq_error {before after : List α} {failing : α} {error : ε}
    (hbefore : ∀ input ∈ before, ∃ result, step input = .ok result)
    (hfailing : step failing = .error error) :
    (before ++ failing :: after).mapM step = .error error := by
  induction before with
  | nil =>
      rw [List.nil_append, List.mapM_cons, hfailing]
      rfl
  | cons input before ih =>
      obtain ⟨⟨result, hresult⟩, hrest⟩ := List.forall_mem_cons.mp hbefore
      rw [List.cons_append, List.mapM_cons, hresult, ih hrest]
      rfl

/-- A traversal fails with the error of the first step that fails. -/
theorem mapM_eq_error_iff {inputs : List α} {error : ε} :
    inputs.mapM step = .error error ↔
      ∃ before failing after, inputs = before ++ failing :: after ∧
        (∀ input ∈ before, ∃ result, step input = .ok result) ∧ step failing = .error error := by
  constructor
  · intro h
    induction inputs with
    | nil => cases h
    | cons input inputs ih =>
        rw [List.mapM_cons] at h
        cases hfirst : step input with
        | error first =>
            rw [hfirst] at h
            obtain rfl := Except.error.inj h
            exact ⟨[], input, inputs, rfl, by simp, hfirst⟩
        | ok result =>
            have hrest : inputs.mapM step = .error error := by
              rw [hfirst] at h
              cases hrest : inputs.mapM step with
              | ok further => simp [hrest, bind, Except.bind, pure, Except.pure] at h
              | error error => simpa [hrest, bind, Except.bind] using h
            obtain ⟨before, failing, after, rfl, hbefore, hfailing⟩ := ih hrest
            exact ⟨input :: before, failing, after, rfl,
              List.forall_mem_cons.mpr ⟨⟨result, hfirst⟩, hbefore⟩, hfailing⟩
  · rintro ⟨before, failing, after, rfl, hbefore, hfailing⟩
    exact mapM_eq_error hbefore hfailing

end ModelQuery.Steps

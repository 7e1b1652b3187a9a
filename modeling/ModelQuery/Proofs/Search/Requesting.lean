import ModelQuery.Proofs.Attribute.Hexadecimal
import ModelQuery.Proofs.Steps
import ModelQuery.Search

/-!
# Requested attributes

A search requests attributes by the texts of their identifiers, each once. `resolveAll_eq_ok_iff`
and `resolveAll_eq_error_iff` say what becomes of a list of names, and `withoutRepetitions_map` that
of two names for one attribute the first one counts.
-/

namespace ModelQuery

namespace AttributeId

/-- A name that is not resolved is what is wrong. -/
theorem eq_unknownAttribute_of_resolve {name : String} {error : Error}
    (h : resolve name = .error error) : error = .unknownAttribute name := by
  unfold resolve at h
  split at h
  next => cases h
  next =>
    split at h
    next => cases h
    next => exact (Except.error.inj h).symm

/-- The texts of the identifiers of several names. -/
theorem resolveAll_eq_ok_iff {names texts : List String} :
    resolveAll names = .ok texts ↔ ∃ ids,
      List.Forall₂ (fun name id ↦ resolve name = .ok id) names ids ∧ texts = ids.map text := by
  have hstep : ∀ name written, text <$> resolve name = .ok written ↔
      ∃ id, resolve name = .ok id ∧ id.text = written := by
    intro name written
    cases resolve name <;> simp [Functor.map, Except.map]
  rw [resolveAll, Steps.mapM_eq_ok_iff]
  simp only [hstep]
  constructor
  · intro h
    induction h with
    | nil => exact ⟨[], .nil, rfl⟩
    | cons hfirst _ ih =>
        obtain ⟨id, hid, rfl⟩ := hfirst
        obtain ⟨ids, hids, rfl⟩ := ih
        exact ⟨id :: ids, .cons hid hids, rfl⟩
  · rintro ⟨ids, hids, rfl⟩
    exact List.forall₂_map_right_iff.mpr (hids.imp fun _ id hid ↦ ⟨id, hid, rfl⟩)

/-- Of several names, the first that is not resolved is what is wrong. -/
theorem resolveAll_eq_error_iff {names : List String} {error : Error} :
    resolveAll names = .error error ↔ ∃ before name after, names = before ++ name :: after ∧
      (∀ earlier ∈ before, ∃ id, resolve earlier = .ok id) ∧
      resolve name = .error (.unknownAttribute name) ∧ error = .unknownAttribute name := by
  have hok : ∀ name, (∃ written, text <$> resolve name = .ok written) ↔
      ∃ id, resolve name = .ok id := by
    intro name
    cases resolve name <;> simp [Functor.map, Except.map]
  have herror : ∀ name, text <$> resolve name = .error error ↔
      resolve name = .error (.unknownAttribute name) ∧ error = .unknownAttribute name := by
    intro name
    cases hresolve : resolve name with
    | ok id => simp [Functor.map, Except.map]
    | error found =>
        obtain rfl := eq_unknownAttribute_of_resolve hresolve
        simp [Functor.map, Except.map, eq_comm]
  rw [resolveAll, Steps.mapM_eq_error_iff]
  simp only [hok, herror]

end AttributeId

namespace Search

variable {α : Type} [BEq α] [LawfulBEq α]

/-- A value is added to a list of others unless it is there, and so it is with their texts. -/
theorem appendNew_map {text : α → String} (htext : Function.Injective text) (seen : List α)
    (value : α) :
    appendNew (seen.map text) (text value) =
      (if seen.contains value then seen else seen ++ [value]).map text := by
  have hcontains : (seen.map text).contains (text value) = seen.contains value := by
    rw [Bool.eq_iff_iff, List.contains_iff_mem, List.contains_iff_mem,
      List.mem_map_of_injective htext]
  rw [appendNew, hcontains]
  split
  next => rfl
  next => rw [List.map_append, List.map_singleton]

/-- Of the values that are still to come, those are added that are not there yet. -/
theorem foldl_appendNew_map {text : α → String} (htext : Function.Injective text)
    (values seen : List α) :
    (values.map text).foldl appendNew (seen.map text) =
      (seen ++ (values.filter fun value ↦ !seen.contains value).eraseDups).map text := by
  -- what is there already grows with every step
  induction values generalizing seen with
  | nil => simp
  | cons value values ih =>
      rw [List.map_cons, List.foldl_cons, appendNew_map htext, ih, List.filter_cons]
      cases seen.contains value with
      | true => rfl
      | false =>
          have hadded : (values.filter fun other ↦ !(seen ++ [value]).contains other) =
              (values.filter fun other ↦ !seen.contains other).filter (fun other ↦
                !other == value) := by
            rw [List.filter_filter]
            refine List.filter_congr fun other _ ↦ ?_
            rw [Bool.eq_iff_iff]
            simp [and_comm]
          simp only [Bool.not_false, if_true, Bool.false_eq_true, if_false, List.eraseDups_cons,
            hadded, List.append_assoc, List.singleton_append]

/-- Of equal values the first one is kept, and so it is with their texts if no two values share
one. -/
theorem withoutRepetitions_map {text : α → String} (htext : Function.Injective text)
    (values : List α) : withoutRepetitions (values.map text) = values.eraseDups.map text := by
  have hfold := foldl_appendNew_map htext values []
  rw [List.map_nil, List.nil_append] at hfold
  rw [withoutRepetitions, hfold]
  simp

end Search

end ModelQuery

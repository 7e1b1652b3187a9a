import Mathlib.Logic.Function.Defs
import ModelQuery.Attribute.Resolve
import ModelQuery.Proofs.Attribute.Hexadecimal
import ModelQuery.Proofs.Attribute.Literal

/-!
# Names and identifiers back and forth

Every written form of an identifier resolves to it: its text, its number in decimal, and its name.
A literal has a decimal digit in it and no catalogue name has one (`not_isCatalogueName`), so the
catalogue never stands in the way of a literal. `resolve_lossless` puts this together with what
becomes of a text that is no written form of any identifier.
-/

namespace ModelQuery

open Text

/-- The text is the name of a catalogued attribute, in any letter case. -/
def IsCatalogueName (text : String) : Prop :=
  ∃ known ∈ Attribute.catalogue, fold known.name.toList = fold text.toList

/-! ## The catalogue -/

namespace Attribute

/-- A catalogued attribute is found under its name. -/
theorem ofName?_name : ∀ known ∈ catalogue, ofName? known.name = some known := by
  decide +kernel

/-- No catalogue name has a decimal digit. -/
theorem digitValue?_of_mem_name {known : Attribute} (hknown : known ∈ catalogue) {c : Char}
    (hc : c ∈ fold known.name.toList) : digitValue? 10 c = none := by
  have hall : ∀ entry ∈ catalogue,
      (fold entry.name.toList).all (fun letter ↦ (digitValue? 10 letter).isNone) = true := by
    decide +kernel
  exact Option.isNone_iff_eq_none.mp (List.all_eq_true.mp (hall known hknown) c hc)

/-- A name is not found exactly if it is no catalogue name. -/
theorem ofName?_eq_none_iff {text : String} : ofName? text = none ↔ ¬ IsCatalogueName text := by
  simp [ofName?, IsCatalogueName, sameWord]

/-- What is found under an identifier is a catalogued attribute with this identifier. -/
theorem of_ofId? {id : AttributeId} {known : Attribute} (h : ofId? id = some known) :
    known ∈ catalogue ∧ known.id = id :=
  ⟨List.mem_of_find?_eq_some h, by simpa using List.find?_some h⟩

end Attribute

/-! ## Literals and catalogue names -/

namespace Literal

/-- A signed literal has a decimal digit. -/
theorem IsSigned.exists_digit {text : List Char} {number : Int} (h : IsSigned text number) :
    ∃ c ∈ text, ∃ digit, digitValue? 10 c = some digit := by
  cases h with
  | unsigned _ _ hmagnitude | plus _ _ hmagnitude | minus _ _ hmagnitude =>
      obtain ⟨⟨c, rest, digit, rfl, hdigit⟩, -⟩ := hmagnitude.characters
      exact ⟨c, by simp, digit, hdigit⟩

/-- No literal is a catalogue name. -/
theorem IsLiteral.not_isCatalogueName {text : String} {number : Int}
    (h : IsLiteral text.toList number) : ¬ IsCatalogueName text := by
  rintro ⟨known, hknown, hname⟩
  obtain ⟨before, body, after, htext, -, -, hbody⟩ := h
  obtain ⟨c, hc, digit, hdigit⟩ := hbody.exists_digit
  have hmem : c.toLower ∈ fold known.name.toList := by
    rw [hname, htext]
    exact List.mem_map_of_mem (by simp [hc])
  have hnone := Attribute.digitValue?_of_mem_name hknown hmem
  rw [digitValue?_toLower (by decide), hdigit] at hnone
  cases hnone

end Literal

namespace AttributeId

open Literal

/-! ## Written forms -/

/-- The text of an identifier is a literal of its number. -/
theorem isLiteral_text (id : AttributeId) : IsLiteral id.text.toList id.value := by
  have htext : id.text.toList =
      signOf id.value ++ '0' :: 'x' :: Nat.toDigits 16 id.value.natAbs := by
    unfold text hexText signOf
    split <;> simp
  rw [htext]
  exact (isMagnitude_marked (by decide) _).signed.isLiteral

/-- The decimal numeral of a number is a literal of it. -/
theorem isLiteral_toString (number : Int) : IsLiteral (toString number).toList number := by
  have htext : (toString number).toList = signOf number ++ Nat.toDigits 10 number.natAbs := by
    rw [Int.toString_eq_repr, Int.repr_eq_if, signOf]
    by_cases hnegative : number < 0
    · rw [if_neg (by omega), if_pos hnegative, show (-number).toNat = number.natAbs by omega]
      simp [Nat.toList_repr]
    · rw [if_pos (by omega), if_neg hnegative, show number.toNat = number.natAbs by omega]
      simp [Nat.toList_repr]
  rw [htext]
  exact (isMagnitude_decimal _).signed.isLiteral

/-- A literal of an identifier resolves to it. -/
theorem resolve_of_isLiteral {text : String} {id : AttributeId}
    (h : IsLiteral text.toList id.value) : resolve text = .ok id := by
  rw [resolve, Attribute.ofName?_eq_none_iff.mpr h.not_isCatalogueName,
    ofLiteral?_eq_some_iff.mpr h]

/-- The name of an identifier resolves to it. -/
theorem resolve_name (id : AttributeId) : resolve id.name = .ok id := by
  rw [name]
  cases hknown : Attribute.ofId? id with
  | none => exact resolve_of_isLiteral id.isLiteral_text
  | some known =>
      obtain ⟨hmem, rfl⟩ := Attribute.of_ofId? hknown
      rw [resolve, Attribute.ofName?_name known hmem]

/-! ## Other texts -/

/-- A text that is no catalogue name is resolved as a literal. -/
theorem nameOfLiteral_of_not_isCatalogueName {text : String} (h : ¬ IsCatalogueName text) :
    nameOfLiteral text = name <$> resolve text := by
  rw [nameOfLiteral, resolve, Attribute.ofName?_eq_none_iff.mpr h]
  cases ofLiteral? text <;> rfl

/-- A catalogue name is no literal. -/
theorem nameOfLiteral_of_isCatalogueName {text : String} (h : IsCatalogueName text) :
    nameOfLiteral text = .error (.unknownAttribute text) := by
  have hnone : ofLiteral? text = none := Option.eq_none_iff_forall_ne_some.mpr fun _ hread ↦
    (ofLiteral?_eq_some_iff.mp hread).not_isCatalogueName h
  rw [nameOfLiteral, hnone]

/-- A text resolves, or it is itself the unknown attribute. -/
theorem resolve_cases (text : String) :
    (∃ id, resolve text = .ok id) ∨ resolve text = .error (.unknownAttribute text) := by
  unfold resolve
  split
  next known _ => exact Or.inl ⟨known.id, rfl⟩
  next =>
    split
    next id _ => exact Or.inl ⟨id, rfl⟩
    next => exact Or.inr rfl

/-- Nothing is lost between names and identifiers. Every identifier is what its text, its number in
decimal and its name resolve to; its text leads to its name, and belongs to no other identifier. A
text that is no catalogue name leads to the name of the identifier that it resolves to, or to the
same refusal, and a catalogue name is refused where a literal is asked for. -/
theorem resolve_lossless :
    (∀ id : AttributeId, resolve id.text = .ok id ∧ resolve (toString id.value) = .ok id ∧
      resolve id.name = .ok id ∧ nameOfLiteral id.text = .ok id.name) ∧
    Function.Injective AttributeId.text ∧
    ∀ text : String,
      (¬ IsCatalogueName text →
        nameOfLiteral text = name <$> resolve text ∧
          ((∃ id, resolve text = .ok id) ∨
            nameOfLiteral text = .error (.unknownAttribute text) ∧
              resolve text = .error (.unknownAttribute text))) ∧
      (IsCatalogueName text → nameOfLiteral text = .error (.unknownAttribute text)) := by
  refine ⟨fun id ↦ ⟨resolve_of_isLiteral id.isLiteral_text,
    resolve_of_isLiteral (isLiteral_toString id.value), resolve_name id, ?_⟩,
    text_injective, fun text ↦ ⟨fun hname ↦ ?_, nameOfLiteral_of_isCatalogueName⟩⟩
  · have hname := id.isLiteral_text.not_isCatalogueName
    rw [nameOfLiteral_of_not_isCatalogueName hname, resolve_of_isLiteral id.isLiteral_text]
    rfl
  · have hsame := nameOfLiteral_of_not_isCatalogueName hname
    refine ⟨hsame, (resolve_cases text).imp_right fun herror ↦ ⟨?_, herror⟩⟩
    rw [hsame, herror]
    rfl

/-- The least identifier has no catalogue name, and the name of the model has one, which is no
literal. A word that is neither is refused both ways. -/
theorem resolve_lossless_least :
    resolve "-0x8000000000000000" = .ok ⟨-2 ^ 63, by decide, by decide⟩ ∧
      nameOfLiteral "Model_Name" = .error (.unknownAttribute "Model_Name") ∧
      nameOfLiteral "model" = name <$> resolve "model" := by
  refine ⟨?_, ?_, ?_⟩
  · exact (resolve_lossless.1 ⟨-2 ^ 63, by decide, by decide⟩).1
  · exact (resolve_lossless.2.2 "Model_Name").2
      ⟨Attribute.modelName, by decide +kernel, by decide +kernel⟩
  · refine ((resolve_lossless.2.2 "model").1 ?_).1
    rintro ⟨known, hknown, hname⟩
    revert known
    decide +kernel

end AttributeId

end ModelQuery

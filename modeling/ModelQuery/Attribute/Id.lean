/-!
# Attribute identifiers

An attribute of a model is identified by a signed 64-bit number. `AttributeId.text` is its one
written form: hexadecimal with small letters and no leading zero, after a minus sign if the number
is negative.
-/

namespace ModelQuery

/-- A signed 64-bit number that identifies an attribute. -/
@[ext] structure AttributeId where
  value : Int
  least : -0x8000000000000000 ≤ value
  most : value < 0x8000000000000000
  deriving DecidableEq, Repr

namespace AttributeId

/-- The identifier with this number, if it fits into 64 bits with its sign. -/
def ofInt? (value : Int) : Option AttributeId :=
  if h : -0x8000000000000000 ≤ value ∧ value < 0x8000000000000000 then some ⟨value, h.1, h.2⟩
  else none

/-- The identifier whose number is a 32-bit word. -/
def ofWord (word : UInt32) : AttributeId :=
  ⟨word.toNat, by omega, by have := word.toNat_lt; omega⟩

/-- The written form of a number: `0x` and hexadecimal digits, with the sign before both. -/
def hexText (value : Int) : String :=
  (if value < 0 then "-0x" else "0x") ++ String.ofList (Nat.toDigits 16 value.natAbs)

/-- The one written form of the identifier. -/
def text (id : AttributeId) : String :=
  hexText id.value

/-- An identifier exists for exactly the numbers of the signed 64-bit range. -/
theorem ofInt?_eq_some_iff (value : Int) (id : AttributeId) :
    ofInt? value = some id ↔ id.value = value := by
  unfold ofInt?
  split
  next h => simp [AttributeId.ext_iff, eq_comm]
  next h =>
    simp only [reduceCtorEq, false_iff]
    rintro rfl
    exact h ⟨id.least, id.most⟩

end AttributeId

end ModelQuery

import ModelQuery.Attribute.Catalogue
import ModelQuery.Attribute.Literal
import ModelQuery.Error

/-!
# Names and identifiers of attributes

An attribute is named by its catalogue name or by an integer literal. `AttributeId.resolve` finds
the identifier, and `AttributeId.name` goes the other way: the catalogue name if there is one, and
the hexadecimal text if not.
-/

namespace ModelQuery.AttributeId

/-- The identifier that a name stands for. The catalogue is asked first, in any letter case and
without trimming; any other name must be an integer literal. -/
def resolve (name : String) : Except Error AttributeId :=
  match Attribute.ofName? name with
  | some known => .ok known.id
  | none =>
      match ofLiteral? name with
      | some id => .ok id
      | none => .error (.unknownAttribute name)

/-- The catalogue name of the identifier, or its written form if it has none. -/
def name (id : AttributeId) : String :=
  match Attribute.ofId? id with
  | some known => known.name
  | none => id.text

/-- The name of the identifier that an integer literal stands for. Catalogue names are no
literals. -/
def nameOfLiteral (text : String) : Except Error String :=
  match ofLiteral? text with
  | some id => .ok id.name
  | none => .error (.unknownAttribute text)

/-- The written forms of the identifiers that the names stand for, in order. The first name that
cannot be resolved is the error. -/
def resolveAll (names : List String) : Except Error (List String) :=
  names.mapM fun name ↦ AttributeId.text <$> resolve name

end ModelQuery.AttributeId

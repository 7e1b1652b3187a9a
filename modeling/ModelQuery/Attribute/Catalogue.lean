import ModelQuery.Attribute.Id
import ModelQuery.Text.Letter

/-!
# The attribute catalogue

The attributes that are known by name. `Attribute.ofName?` looks a name up in any letter case and
`Attribute.ofId?` looks an identifier up; `Attribute.catalogue` has no two entries that share
either.
-/

namespace ModelQuery

/-- A catalogued attribute: its name and its identifier. -/
structure Attribute where
  name : String
  id : AttributeId
  deriving DecidableEq

namespace Attribute

/-- A catalogue entry with a number that plainly fits. -/
def entry (name : String) (number : Nat) (h : number < 0x8000000000000000 := by decide) :
    Attribute :=
  ⟨name, number, by omega, by omega⟩

/-- The handle of the model. -/
def modelHandle : Attribute := entry "model_handle" 0x129fa

/-- The name of the model. -/
def modelName : Attribute := entry "model_name" 0x1006e

/-- The name of the type of the model. -/
def modelTypeName : Attribute := entry "model_type_name" 0x10000

/-- Every catalogued attribute, in the order of their names. -/
def catalogue : List Attribute :=
  [entry "collections_model_name_string" 0x12adb,
    entry "condition" 0x1000a,
    entry "device_type" 0x23000e,
    entry "is_managed" 0x1295d,
    entry "last_successful_poll" 0x11620,
    entry "manufacturer" 0x10032,
    entry "mdl_creat_time" 0x1102a,
    entry "model_class" 0x11ee8,
    modelHandle,
    modelName,
    entry "model_type_handle" 0x10001,
    modelTypeName,
    entry "ncm_device_family_index" 0x12bef,
    entry "ncm_potential_comm_modes" 0x12beb,
    entry "ncm_selected_comm_mode" 0x12bec,
    entry "network_address" 0x12d7f,
    entry "serial_number" 0x10030,
    entry "sys_desc" 0x10052,
    entry "sys_location" 0x1102e,
    entry "topology_model_name_string" 0x129e7]

/-- The attributes that a search requests unless it is told otherwise. -/
def defaults : List Attribute :=
  [modelHandle, modelName, modelTypeName]

/-- The catalogued attribute of this name, in any letter case. -/
def ofName? (name : String) : Option Attribute :=
  catalogue.find? fun known ↦ Text.sameWord known.name name

/-- The catalogued attribute with this identifier. -/
def ofId? (id : AttributeId) : Option Attribute :=
  catalogue.find? fun known ↦ known.id == id

/-- The attribute as it is shown to a reader. -/
def display (known : Attribute) : String :=
  known.name ++ ": " ++ known.id.text

end Attribute

end ModelQuery

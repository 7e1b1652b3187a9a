import ModelQuery.Config.Store
import ModelQuery.Proofs.Config.Rendering
import ModelQuery.Proofs.Files.Saving

/-!
# Saving and loading a configuration

A configuration that was saved is loaded as it was if it is valid, and if it is not, loading fails
as checking it does. Neither the file nor what it says changes it otherwise.
-/

namespace ModelQuery.Config

variable {config : Config} {tree saved : FileTree}

/-- What was saved for a configuration is found at the path of its file. -/
theorem look_of_save (h : config.save tree = (.ok (), saved)) :
    saved.look config.path = .text config.render := by
  have hslash : '/' ∉ fileName.toList := by decide
  unfold save at h
  split at h
  next written hwritten =>
    cases h
    exact FileTree.look_of_save hslash hwritten
  next => cases h

/-- Saving a configuration and loading it from its directory is checking it: a valid one comes back
as it was, and any other is refused with the error of the check. -/
theorem load_of_save (h : config.save tree = (.ok (), saved)) :
    (config.validate = .ok () → load saved config.root = .ok config) ∧
      ∀ error, config.validate = .error error → load saved config.root = .error error := by
  have hload : load saved config.root = config.validate.map fun _ ↦ config := by
    rw [load, show saved.look (pathIn config.root) = .text config.render from look_of_save h]
    exact config.read_render
  constructor
  · intro hvalid
    rw [hload, hvalid]
    rfl
  · intro error hinvalid
    rw [hload, hinvalid]
    rfl

/-- A configuration whose second attribute has both quotes, a backslash, a line feed and a control
character. -/
def unresolvable : Config :=
  ⟨"/cfg", 5000, ["model_name", "it's \"up\"\\\n\x07"], true⟩

/-- Such a configuration is saved, and refused by that attribute, unchanged, when it is loaded. -/
theorem load_of_save_unresolvable :
    ∃ saved, unresolvable.save ⟨[], []⟩ = (.ok (), saved) ∧
      load saved "/cfg" = .error (.config (.unknownDefault "it's \"up\"\\\n\x07")) := by
  have hsave : unresolvable.save ⟨[], []⟩ = (.ok (), (unresolvable.save ⟨[], []⟩).2) := rfl
  exact ⟨_, hsave, (load_of_save hsave).2 _ rfl⟩

end ModelQuery.Config

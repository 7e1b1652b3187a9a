import ModelQuery.Proofs.Config.Loading
import ModelQuery.Proofs.Config.Rendering

/-!
# Files that leave assignments out

A file that assigns only to some fields of a configuration is loaded with the built-in values in the
others, in whatever order it does so, and one that assigns to a field twice is malformed. Where a
valid configuration is partly replaced by the built-in one it stays valid (`isUsable_keeping`), so
nothing is left that loading could find wrong. `load_partial` says so, and that whatever is loaded
from any file has been found valid.
-/

namespace ModelQuery.Config

/-- A configuration that has some values of one that can be used, and built-in values besides, can
be used. -/
theorem isUsable_keeping {config : Config} (h : config.IsUsable) (root : String)
    (fields : List Field) : (config.keeping root fields).IsUsable where
  throttleSize_ne_zero := by
    show (if _ ∈ fields then config.throttleSize else (builtIn root).throttleSize) ≠ 0
    split
    next => exact h.throttleSize_ne_zero
    next => exact (isUsable_builtIn root).throttleSize_ne_zero
  resolved := by
    show ∀ name ∈ if _ ∈ fields then config.defaultAttributes else (builtIn root).defaultAttributes,
      ∃ id, AttributeId.resolve name = .ok id
    split
    next => exact h.resolved
    next => exact (isUsable_builtIn root).resolved

/-- The order of the fields does not matter. -/
theorem keeping_perm (config : Config) (root : String) {fields others : List Field}
    (h : others.Perm fields) : config.keeping root others = config.keeping root fields := by
  simp only [keeping, h.mem_iff]

/-- A file that assigns to some fields of a valid configuration holds these values and the built-in
ones. -/
theorem read_written_of_nodup {config : Config} (hvalid : config.validate = .ok ()) (root : String)
    {fields : List Field} (h : fields.Nodup) :
    read root (config.written fields) = .ok (config.keeping root fields) := by
  have hkept := isUsable_keeping (validate_eq_ok_iff.mp hvalid) root fields
  rw [config.read_written root h, validate_eq_ok_iff.mpr hkept]
  rfl

/-- What a file holds does not depend on the order of its assignments. -/
theorem read_written_perm {config : Config} (hvalid : config.validate = .ok ()) (root : String)
    {fields others : List Field} (h : others.Perm fields) :
    read root (config.written others) = read root (config.written fields) := by
  by_cases hfields : fields.Nodup
  · rw [read_written_of_nodup hvalid root hfields,
      read_written_of_nodup hvalid root (h.nodup_iff.mpr hfields), keeping_perm config root h]
  · rw [config.read_written_of_not_nodup root hfields,
      config.read_written_of_not_nodup root fun hothers ↦ hfields (h.nodup_iff.mp hothers)]

/-- A file that has some of the assignments with which a valid configuration is saved, each once and
in any order, is loaded with the values of this configuration in the fields that it assigns to and
the built-in values in the others. The order of assignments makes no difference, and with a field
that is assigned to again the file is malformed. Whatever a file has in it, what is loaded from it
is valid: its throttle size is at least one, and its default attributes are resolved. -/
theorem load_partial :
    (∀ (config : Config) (tree : FileTree) (root : String) (fields : List Field),
      config.validate = .ok () → tree.look (pathIn root) = .text (config.written fields) →
      (fields.Nodup → load tree root = .ok (config.keeping root fields)) ∧
      (∀ (other : FileTree) (others : List Field), others.Perm fields →
        other.look (pathIn root) = .text (config.written others) →
        load other root = load tree root) ∧
      (¬ fields.Nodup → load tree root = .error (.config .malformed))) ∧
    (∀ config : Config, config.render = config.written Field.all) ∧
    ∀ (tree : FileTree) (root : String) (config : Config), load tree root = .ok config →
      config.validate = .ok () ∧ 1 ≤ config.throttleSize ∧
        ∀ name ∈ config.defaultAttributes, ∃ id, AttributeId.resolve name = .ok id := by
  refine ⟨fun config tree root fields hvalid hfile ↦ ?_, render_eq,
    fun tree root config hload ↦ ?_⟩
  · refine ⟨fun hnodup ↦ ?_, fun other others hperm hother ↦ ?_, fun htwice ↦ ?_⟩
    · rw [load_of_look hfile, read_written_of_nodup hvalid root hnodup]
    · rw [load_of_look hother, load_of_look hfile, read_written_perm hvalid root hperm]
    · rw [load_of_look hfile, config.read_written_of_not_nodup root htwice]
  · have husable := isUsable_of_load hload
    refine ⟨validate_eq_ok_iff.mpr husable, ?_, husable.resolved⟩
    have hne : config.throttleSize.toNat ≠ 0 := fun hzero ↦
      husable.throttleSize_ne_zero (UInt32.toNat_inj.mp hzero)
    exact UInt32.le_iff_toNat_le.mpr (Nat.one_le_iff_ne_zero.mpr hne)

/-- A configuration with an attribute of three lines, the literal in the second of them. -/
def multiline : Config :=
  ⟨"/cfg", 5000, ["model_name", "\n0x1\t\n"], true⟩

/-- A file tree whose configuration file assigns to these fields of that configuration. -/
def multilineTree (fields : List Field) : FileTree :=
  ⟨[(["cfg"], .directory), (["cfg", "config.toml"], .file (.text (multiline.written fields)))], []⟩

/-- Without the throttle size, and with the lines of the attributes last, that configuration keeps
its attributes; with the restriction to devices in front of them and behind them its file is
malformed. -/
theorem load_partial_multiline :
    multiline.written [.devicesOnly, .defaultAttributes] =
        "devices_only = true\ndefault_attrs = [\n    \"model_name\",\n    " ++
          "\"\"\"\n\n0x1\\t\n\"\"\",\n]\n" ∧
      load (multilineTree [.devicesOnly, .defaultAttributes]) "/cfg" =
        .ok ⟨"/cfg", 9999, ["model_name", "\n0x1\t\n"], true⟩ ∧
      load (multilineTree [.defaultAttributes, .devicesOnly]) "/cfg" =
        load (multilineTree [.devicesOnly, .defaultAttributes]) "/cfg" ∧
      load (multilineTree [.devicesOnly, .defaultAttributes, .devicesOnly]) "/cfg" =
        .error (.config .malformed) ∧
      (⟨"/cfg", 9999, ["model_name", "\n0x1\t\n"], true⟩ : Config).validate = .ok () := by
  have hvalid : multiline.validate = .ok () := rfl
  have hfile : ∀ fields, (multilineTree fields).look (pathIn "/cfg") =
      .text (multiline.written fields) := by
    intro fields
    rfl
  obtain ⟨hpartial, -, hloaded⟩ := load_partial
  have hsome := hpartial multiline _ "/cfg" _ hvalid (hfile [.devicesOnly, .defaultAttributes])
  have htwice := hpartial multiline _ "/cfg" _ hvalid
    (hfile [.devicesOnly, .defaultAttributes, .devicesOnly])
  have hload := hsome.1 (by decide)
  exact ⟨by decide +kernel, hload, hsome.2.1 _ _ (by decide) (hfile _), htwice.2.2 (by decide),
    (hloaded _ _ _ hload).1⟩

end ModelQuery.Config

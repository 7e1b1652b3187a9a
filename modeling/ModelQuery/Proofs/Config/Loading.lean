import ModelQuery.Config.Store
import ModelQuery.Proofs.Search.Requesting

/-!
# What loading a configuration gives

A configuration that is loaded can be used by every search: its throttle size is not zero, and each
of its attributes is resolved. `IsUsable` says so, and `validate_eq_ok_iff` that this is what is
checked. Loading gives such a configuration or an error that is not about an attribute of a search
(`loading_loadFor`), whatever the file is.
-/

namespace ModelQuery.Config

/-- Every search can use the configuration. -/
structure IsUsable (config : Config) : Prop where
  throttleSize_ne_zero : config.throttleSize ≠ 0
  resolved : ∀ name ∈ config.defaultAttributes, ∃ id, AttributeId.resolve name = .ok id

/-- What loading a configuration can end in: one that can be used, or an error that is about the
configuration or its file. -/
inductive Loading : Except Error Config → Prop where
  | loaded (config : Config) : config.IsUsable → Loading (.ok config)
  | unusable (fault : ConfigFault) : Loading (.error (.config fault))
  | unreadable : Loading (.error .access)

/-- The configuration of the directory that an environment says, in a file tree. -/
def loadFor (tree : FileTree) (environment : Environment) : Except Error Config :=
  locate environment >>= load tree

/-- The attributes of a configuration that can be used are all resolved. -/
theorem IsUsable.resolveAll {config : Config} (h : config.IsUsable) :
    ∃ texts, AttributeId.resolveAll config.defaultAttributes = .ok texts := by
  cases hnames : AttributeId.resolveAll config.defaultAttributes with
  | ok texts => exact ⟨texts, rfl⟩
  | error error =>
      obtain ⟨before, name, after, hsplit, -, hname, rfl⟩ :=
        AttributeId.resolveAll_eq_error_iff.mp hnames
      obtain ⟨id, hid⟩ := h.resolved name (hsplit ▸ by simp)
      rw [hname] at hid
      cases hid

/-- What can be used is valid, and nothing else is. -/
theorem validate_eq_ok_iff {config : Config} : config.validate = .ok () ↔ config.IsUsable := by
  unfold validate
  split
  next hzero => exact ⟨nofun, fun h ↦ absurd hzero h.throttleSize_ne_zero⟩
  next hzero =>
    constructor
    · intro h
      refine ⟨hzero, ?_⟩
      cases hnames : AttributeId.resolveAll config.defaultAttributes with
      | ok texts =>
          obtain ⟨ids, hids, -⟩ := AttributeId.resolveAll_eq_ok_iff.mp hnames
          exact fun name hname ↦ Steps.exists_of_mem hids hname
      | error error =>
          obtain ⟨_, _, _, _, _, _, rfl⟩ := AttributeId.resolveAll_eq_error_iff.mp hnames
          rw [hnames] at h
          cases h
    · intro h
      obtain ⟨texts, htexts⟩ := h.resolveAll
      rw [htexts]

/-- What is wrong with a configuration is never an attribute of a search. -/
theorem eq_config_of_validate {config : Config} {error : Error}
    (h : config.validate = .error error) : ∃ fault, error = .config fault := by
  unfold validate at h
  split at h
  next => exact ⟨_, (Except.error.inj h).symm⟩
  next =>
    cases hnames : AttributeId.resolveAll config.defaultAttributes with
    | ok texts =>
        rw [hnames] at h
        cases h
    | error found =>
        obtain ⟨_, name, _, _, _, _, rfl⟩ := AttributeId.resolveAll_eq_error_iff.mp hnames
        rw [hnames] at h
        exact ⟨.unknownDefault name, (Except.error.inj h).symm⟩

/-- The built-in configuration can be used. -/
theorem isUsable_builtIn (root : String) : (builtIn root).IsUsable where
  throttleSize_ne_zero := by
    show defaultThrottleSize ≠ 0
    decide
  resolved := by
    show ∀ name ∈ defaultAttributeNames, _
    have hall : ∀ name ∈ defaultAttributeNames, (AttributeId.resolve name).toOption.isSome := by
      decide
    intro name hname
    have hsome := hall name hname
    cases hresolve : AttributeId.resolve name with
    | ok id => exact ⟨id, rfl⟩
    | error error =>
        rw [hresolve] at hsome
        cases hsome

/-- What a text holds can be used, or it is refused as a configuration. -/
theorem loading_read (root text : String) : Loading (read root text) := by
  unfold read
  cases Toml.read? text >>= ofEntries? root with
  | none => exact .unusable .malformed
  | some config =>
      cases hvalid : config.validate with
      | ok =>
          simp only [hvalid]
          exact .loaded config (validate_eq_ok_iff.mp hvalid)
      | error error =>
          obtain ⟨fault, rfl⟩ := eq_config_of_validate hvalid
          simp only [hvalid]
          exact .unusable fault

/-- What lies at the path of a configuration's file can be used, or it is refused. -/
theorem loading_ofFile (root : String) (state : FileState) : Loading (ofFile root state) := by
  cases state with
  | absent => exact .loaded _ (isUsable_builtIn root)
  | unreadable => exact .unreadable
  | text value => exact loading_read root value

/-- A file that is a text is read. -/
theorem load_of_look {tree : FileTree} {root text : String}
    (h : tree.look (pathIn root) = .text text) : load tree root = read root text := by
  rw [load, h]
  rfl

/-- Whatever the files and the environment are, what is loaded can be used, or loading fails for a
reason that is not an attribute of a search. -/
theorem loading_loadFor (tree : FileTree) (environment : Environment) :
    Loading (loadFor tree environment) := by
  unfold loadFor
  cases hlocate : locate environment with
  | ok root => exact loading_ofFile root _
  | error error =>
      obtain rfl : error = .config .noHome := by
        unfold locate at hlocate
        split at hlocate
        next => cases hlocate
        next => cases hlocate
        next => cases hlocate
        next => exact (Except.error.inj hlocate).symm
      exact .unusable .noHome

/-- A configuration that is loaded from the files of a directory can be used. -/
theorem isUsable_of_load {tree : FileTree} {root : String} {config : Config}
    (h : load tree root = .ok config) : config.IsUsable := by
  have hloading : Loading (load tree root) := loading_ofFile root _
  rw [h] at hloading
  cases hloading with
  | loaded _ husable => exact husable

/-- A configuration that is loaded can be used. -/
theorem isUsable_of_loadFor {tree : FileTree} {environment : Environment} {config : Config}
    (h : loadFor tree environment = .ok config) : config.IsUsable := by
  obtain ⟨root, -, hload⟩ := Steps.bind_eq_ok_iff.mp h
  exact isUsable_of_load hload

/-- A configuration that is not loaded is at fault, or its file cannot be read. -/
theorem error_cases_of_loadFor {tree : FileTree} {environment : Environment} {error : Error}
    (h : loadFor tree environment = .error error) :
    error = .access ∨ ∃ fault, error = .config fault := by
  have hloading := loading_loadFor tree environment
  rw [h] at hloading
  cases hloading with
  | unusable fault => exact Or.inr ⟨fault, rfl⟩
  | unreadable => exact Or.inl rfl

end ModelQuery.Config

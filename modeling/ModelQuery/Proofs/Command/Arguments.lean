import ModelQuery.Command.Arguments
import ModelQuery.Proofs.Steps
import ModelQuery.Proofs.Text.Numeral

/-!
# The arguments of a search

Every search can be asked for: `searchArguments` writes it down, and `read_searchArguments` says
that this is read as the same search, whatever its expression and its attributes are. Nothing else
is read as a throttle size of zero (`throttleSize_ne_zero_of_read`): what has been given before an
argument is never undone by it, so this is an invariant of the reader.
-/

namespace ModelQuery.Arguments

/-! ## Throttle sizes -/

/-- A throttle size that is read is not zero. -/
theorem ne_zero_of_throttleSize? {value : String} {size : UInt32}
    (h : throttleSize? value = some size) : size ≠ 0 := by
  simp only [throttleSize?] at h
  split at h
  next => cases h
  next =>
    obtain ⟨values, -, hsize⟩ := Option.bind_eq_some_iff.mp h
    split at hsize
    next hrange =>
      obtain rfl := Option.some.inj hsize
      intro hzero
      have hnat := congrArg UInt32.toNat hzero
      rw [UInt32.toNat_ofNat_of_lt' hrange.2, UInt32.toNat_zero] at hnat
      omega
    next => cases hsize

/-- A throttle size is read from its decimal numeral. -/
theorem throttleSize?_toDigits {size : UInt32} (h : size ≠ 0) :
    throttleSize? (String.ofList (Nat.toDigits 10 size.toNat)) = some size := by
  obtain ⟨values, hread, hvalue⟩ :=
    Text.digits?_toDigits 10 size.toNat (by decide) (by decide)
  have hsign : Text.splitSign (Nat.toDigits 10 size.toNat) =
      (false, Nat.toDigits 10 size.toNat) :=
    Text.splitSign_digits fun _ ↦ Text.isDigit_of_mem_toDigits
  have hrange : 1 ≤ size.toNat ∧ size.toNat < 0x100000000 := by
    have hlt := size.toNat_lt
    have hne : size.toNat ≠ 0 := fun hzero ↦ h (UInt32.toNat_inj.mp hzero)
    omega
  simp [throttleSize?, hsign, hread, hvalue, hrange, Nat.toDigits_ne_nil]

/-- No throttle size of zero has been given. -/
def Given.HasNoZero (given : Given) : Prop :=
  given.throttleSize ≠ some 0

variable {form : Form} {given after : Given}

/-- A switch does not bring one in. -/
theorem Given.HasNoZero.addSwitch (h : given.HasNoZero) {switch : Switch}
    (hadd : given.addSwitch switch = .ok after) : after.HasNoZero := by
  cases switch with
  | help | version => cases hadd
  | verbose | compact | devicesOnly | force =>
      simp only [Given.addSwitch] at hadd
      split at hadd
      next => cases hadd
      next =>
        obtain rfl := Except.ok.inj hadd
        exact h

/-- A setting does not bring one in: its value is checked. -/
theorem Given.HasNoZero.addSetting (h : given.HasNoZero) {value : String} {setting : Setting}
    (hadd : given.addSetting value setting = .ok after) : after.HasNoZero := by
  cases setting with
  | attributeName =>
      obtain rfl := Except.ok.inj hadd
      exact h
  | throttle =>
      simp only [Given.addSetting] at hadd
      split at hadd
      next size _ hsize =>
        obtain rfl := Except.ok.inj hadd
        exact fun hzero ↦ ne_zero_of_throttleSize? hsize (Option.some.inj hzero)
      next => cases hadd

/-- An operand does not bring one in. -/
theorem Given.HasNoZero.addOperand (h : given.HasNoZero) {operand : String}
    (hadd : given.addOperand form operand = .ok after) : after.HasNoZero := by
  unfold Given.addOperand at hadd
  split at hadd
  next =>
    obtain rfl := Except.ok.inj hadd
    exact h
  next => cases hadd

/-- A setting that is added is the whole result of reading an option. -/
theorem Given.HasNoZero.setting (h : given.HasNoZero) {value : String} {setting : Setting}
    {awaiting : Option Setting}
    (hread : (do pure (← given.addSetting value setting, none) :
      Except Stop (Given × Option Setting)) = .ok (after, awaiting)) : after.HasNoZero := by
  obtain ⟨added, hadd, hpure⟩ := Steps.bind_eq_ok_iff.mp hread
  obtain ⟨rfl, -⟩ := Prod.mk.inj (Except.ok.inj hpure)
  exact h.addSetting hadd

/-- Bundled letters do not bring one in. -/
theorem Given.HasNoZero.readLetters (h : given.HasNoZero) {text : List Char}
    {awaiting : Option Setting} (hread : readLetters form given text = .ok (after, awaiting)) :
    after.HasNoZero := by
  induction text generalizing given with
  | nil =>
      obtain ⟨rfl, -⟩ := Prod.mk.inj (Except.ok.inj hread)
      exact h
  | cons letter rest ih =>
      unfold Arguments.readLetters at hread
      split at hread
      next switch _ =>
        obtain ⟨added, hadd, hrest⟩ := Steps.bind_eq_ok_iff.mp hread
        exact ih (h.addSwitch hadd) hrest
      next =>
        split at hread
        next => cases hread
        next =>
          obtain ⟨rfl, -⟩ := Prod.mk.inj (Except.ok.inj hread)
          exact h
        next => exact h.setting hread
        next => exact h.setting hread

/-- An option by its word does not bring one in. -/
theorem Given.HasNoZero.readWord (h : given.HasNoZero) {text : List Char}
    {awaiting : Option Setting} (hread : readWord form given text = .ok (after, awaiting)) :
    after.HasNoZero := by
  simp only [Arguments.readWord] at hread
  split at hread
  next =>
    obtain ⟨added, hadd, hpure⟩ := Steps.bind_eq_ok_iff.mp hread
    obtain ⟨rfl, -⟩ := Prod.mk.inj (Except.ok.inj hpure)
    exact h.addSwitch hadd
  next =>
    obtain ⟨rfl, -⟩ := Prod.mk.inj (Except.ok.inj hread)
    exact h
  next => exact h.setting hread
  next => cases hread

/-- An option does not bring one in. -/
theorem Given.HasNoZero.readOption (h : given.HasNoZero) {shape : Shape}
    {awaiting : Option Setting} (hread : readOption form given shape = .ok (after, awaiting)) :
    after.HasNoZero := by
  cases shape with
  | word text => exact h.readWord hread
  | letters text => exact h.readLetters hread
  | operandsOnly | operand => cases hread

/-- Several operands do not bring one in. -/
theorem Given.HasNoZero.foldlM (h : given.HasNoZero) {operands : List String}
    (hread : operands.foldlM (Given.addOperand form) given = .ok after) : after.HasNoZero := by
  induction operands generalizing given with
  | nil =>
      obtain rfl := Except.ok.inj hread
      exact h
  | cons operand operands ih =>
      rw [List.foldlM_cons] at hread
      obtain ⟨added, hadd, hrest⟩ := Steps.bind_eq_ok_iff.mp hread
      exact ih (h.addOperand hadd) hrest

/-- No arguments behind the verb bring one in. -/
theorem Given.HasNoZero.readRest (h : given.HasNoZero) {awaiting : Option Setting}
    {arguments : List String} (hread : readRest form given awaiting arguments = .ok after) :
    after.HasNoZero := by
  -- on the arguments, from whatever has been given and is awaited
  induction arguments generalizing given awaiting with
  | nil =>
      cases awaiting with
      | none =>
          obtain rfl := Except.ok.inj hread
          exact h
      | some setting => cases hread
  | cons argument rest ih =>
      cases awaiting with
      | none =>
          rw [Arguments.readRest] at hread
          split at hread
          next => exact h.foldlM hread
          next =>
            obtain ⟨added, hadd, hrest⟩ := Steps.bind_eq_ok_iff.mp hread
            exact ih (h.addOperand hadd) hrest
          next =>
            obtain ⟨⟨added, awaiting⟩, hoption, hrest⟩ := Steps.bind_eq_ok_iff.mp hread
            exact ih (h.readOption hoption) hrest
      | some setting =>
          rw [Arguments.readRest] at hread
          split at hread
          next =>
            obtain ⟨added, hadd, hrest⟩ := Steps.bind_eq_ok_iff.mp hread
            exact ih (h.addSetting hadd) hrest
          next => cases hread

/-- The throttle size of a search that is read from the arguments after its verb is not zero. -/
theorem throttleSize_ne_zero_of_readCommand {verb : Verb} {arguments : List String}
    {expression : Option String} {overrides : Overrides} {compact : Bool}
    (h : readCommand verb arguments = .ok (.search expression overrides compact)) :
    overrides.throttleSize ≠ some 0 := by
  obtain ⟨given, hread, hcommand⟩ := Steps.bind_eq_ok_iff.mp h
  have hnothing : Given.nothing.HasNoZero := nofun
  have hgiven := hnothing.readRest hread
  split at hcommand
  next =>
    have hverb := Except.ok.inj hcommand
    cases verb with
    | search =>
        injection hverb with _ hoverrides _
        rw [← hoverrides]
        exact hgiven
    | parse | attributes | resolve | operators | setUp | quickReference => cases hverb
  next => cases hcommand

/-- The throttle size of a search that is read is not zero. -/
theorem throttleSize_ne_zero_of_read {arguments : List String} {expression : Option String}
    {overrides : Overrides} {compact : Bool}
    (h : read arguments = .ok (.search expression overrides compact)) :
    overrides.throttleSize ≠ some 0 := by
  induction arguments with
  | nil => cases h
  | cons argument rest ih =>
      rw [read] at h
      split at h
      next => cases h
      next =>
        split at h
        next => cases h
        next =>
          split at h
          next verb _ => exact throttleSize_ne_zero_of_readCommand h
          next => cases h
      next =>
        obtain ⟨_, _, hrest⟩ := Steps.bind_eq_ok_iff.mp h
        exact ih hrest

/-! ## Every search can be asked for -/

/-- The argument that gives an option without a value by its letter. -/
def Switch.argument (switch : Switch) : String :=
  String.ofList ['-', switch.letter]

/-- The argument that gives an option by its letter and its value behind an equals sign. -/
def Setting.argument (setting : Setting) (value : String) : String :=
  String.ofList ('-' :: setting.letter :: '=' :: value.toList)

/-- Arguments that ask for a search: each attribute and the throttle size with their options, and
the expression behind two hyphens. -/
def searchArguments (expression : Option String) (overrides : Overrides) (compact : Bool) :
    List String :=
  "search" :: (overrides.attributes.map (Setting.argument .attributeName) ++
    ((overrides.throttleSize.elim [] fun size ↦
        [Setting.argument .throttle (String.ofList (Nat.toDigits 10 size.toNat))]) ++
      ((if overrides.devicesOnly then [Switch.argument .devicesOnly] else []) ++
        ((if compact then [Switch.argument .compact] else []) ++
          expression.elim [] fun text ↦ ["--", text]))))

variable {rest : List String}

/-- Options by their letters are accepted one argument after the other. -/
theorem readRest_letters {argument : String} {text : List Char}
    (hshape : Shape.of argument = .letters text)
    (hread : readLetters form given text = .ok (after, none)) :
    readRest form given none (argument :: rest) = readRest form after none rest := by
  rw [readRest, hshape]
  show readLetters form given text >>= _ = _
  rw [hread]
  rfl

/-- A setting is added with the value in its argument. -/
theorem readRest_setting {setting : Setting} {value : String}
    (hadd : given.addSetting value setting = .ok after) :
    readRest Verb.search.form given none (setting.argument value :: rest) =
      readRest Verb.search.form after none rest := by
  have hshape : Shape.of (setting.argument value) =
      .letters (setting.letter :: '=' :: value.toList) := by
    rw [Shape.of, Setting.argument, String.toList_ofList]
    cases setting <;> rfl
  refine readRest_letters hshape ?_
  have hread : readLetters Verb.search.form given (setting.letter :: '=' :: value.toList) =
      (do pure (← given.addSetting (String.ofList value.toList) setting, none)) := by
    cases setting <;> rfl
  rw [hread, String.ofList_toList, hadd]
  rfl

/-- A switch of a search is added if it is to be given and has not been. -/
theorem readRest_switch {switch : Switch} (hswitch : switch = .devicesOnly ∨ switch = .compact)
    (hnew : given.has switch = false) (wanted : Bool) :
    readRest Verb.search.form given none ((if wanted then [switch.argument] else []) ++ rest) =
      readRest Verb.search.form
        { given with switches := given.switches ++ if wanted then [switch] else [] } none rest := by
  cases wanted with
  | false =>
      simp only [Bool.false_eq_true, if_false, List.append_nil]
      rfl
  | true =>
      have hadd : given.addSwitch switch =
          .ok { given with switches := given.switches ++ [switch] } := by
        rcases hswitch with rfl | rfl <;> simp [Given.addSwitch, hnew]
      have hread : readLetters Verb.search.form given [switch.letter] =
          (do readLetters Verb.search.form (← given.addSwitch switch) []) := by
        rcases hswitch with rfl | rfl <;> rfl
      rw [hadd] at hread
      have hshape : Shape.of switch.argument = .letters [switch.letter] := by
        rcases hswitch with rfl | rfl <;> rfl
      exact readRest_letters hshape hread

/-- Attributes are added in the order in which they are given. -/
theorem readRest_attributes (given : Given) (names : List String) :
    readRest Verb.search.form given none (names.map (Setting.argument .attributeName) ++ rest) =
      readRest Verb.search.form { given with attributes := given.attributes ++ names } none
        rest := by
  induction names generalizing given with
  | nil => rw [List.append_nil]; rfl
  | cons name names ih =>
      rw [List.map_cons, List.cons_append, readRest_setting rfl, ih, List.append_assoc,
        List.singleton_append]

/-- A throttle size is added if there is none yet. -/
theorem readRest_throttle {size? : Option UInt32} (hsize : size? ≠ some 0)
    (hnew : given.throttleSize = none) :
    readRest Verb.search.form given none ((size?.elim [] fun size ↦
        [Setting.argument .throttle (String.ofList (Nat.toDigits 10 size.toNat))]) ++ rest) =
      readRest Verb.search.form { given with throttleSize := size? } none rest := by
  cases size? with
  | none =>
      obtain ⟨switches, attributes, throttleSize, operands⟩ := given
      obtain rfl : throttleSize = none := hnew
      rfl
  | some size =>
      have hne : size ≠ 0 := fun hzero ↦ hsize (congrArg some hzero)
      refine readRest_setting ?_
      simp only [Given.addSetting, hnew, throttleSize?_toDigits hne]

/-- The arguments of a search are read as that search. -/
theorem read_searchArguments (expression : Option String) {overrides : Overrides} (compact : Bool)
    (hsize : overrides.throttleSize ≠ some 0) :
    read (searchArguments expression overrides compact) =
      .ok (.search expression overrides compact) := by
  obtain ⟨names, devicesOnly, size?⟩ := overrides
  -- nothing is an option behind two hyphens
  have hoperand : ∀ given : Given, given.operands = [] →
      readRest Verb.search.form given none (expression.elim [] fun text ↦ ["--", text]) =
        .ok { given with operands := expression.toList } := by
    rintro ⟨switches, attributes, throttleSize, _⟩ rfl
    cases expression <;> rfl
  have hread : read (searchArguments expression ⟨names, devicesOnly, size?⟩ compact) =
      readCommand .search (searchArguments expression ⟨names, devicesOnly, size?⟩ compact).tail :=
    rfl
  rw [hread, readCommand, searchArguments, List.tail_cons, readRest_attributes,
    readRest_throttle hsize rfl, readRest_switch (Or.inl rfl) rfl,
    readRest_switch (Or.inr rfl) (by cases devicesOnly <;> rfl), hoperand _ rfl]
  cases expression <;> cases devicesOnly <;> cases compact <;> rfl

end ModelQuery.Arguments

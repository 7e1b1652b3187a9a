import Mathlib.Data.List.Nodup
import ModelQuery.Config.Format
import ModelQuery.Proofs.Toml.Reading

/-!
# The file of a configuration is read back

A configuration is written as three assignments (`render_eq`), each of them a plain line
(`written_eq`). A file may have any of the three in any order, and what is read from it has their
values and the built-in ones for the others (`read_written`). The main result, `read_render`, is
that reading the whole file does nothing but check the configuration.
-/

namespace ModelQuery.Config

open Text Toml

/-! ## Values -/

/-- A throttle size is read back from its numeral. -/
theorem readValue?_throttleSize (size : UInt32) (rest : List Char) :
    readValue? maxNesting (Nat.toDigits 10 size.toNat ++ '\n' :: rest) =
      some (.integer size.toNat, '\n' :: rest) := by
  have hsize := size.toNat_lt
  have hread : Scalar.read? (Nat.toDigits 10 size.toNat ++ '\n' :: rest) =
      some (.integer size.toNat, '\n' :: rest) := Scalar.read?_toDigits (by omega)
  obtain ⟨c, more, htext⟩ := List.exists_cons_of_ne_nil
    (Nat.toDigits_ne_nil (b := 10) (n := size.toNat))
  have hc : c.isDigit = true := isDigit_of_mem_toDigits (htext ▸ List.mem_cons_self)
  rw [htext, List.cons_append] at hread ⊢
  have hne : ∀ mark : Char, mark.isDigit = false → c ≠ mark := fun _ ↦ ne_of_isDigit hc
  rw [readValue?_word maxNesting ⟨hne _ rfl, hne _ rfl, hne _ rfl, hne _ rfl⟩]
  exact hread

/-- No blank space stands before a numeral. -/
theorem beginsWith_numeral (number : Nat) :
    beginsWith isSpace (Nat.toDigits 10 number) = false := by
  obtain ⟨c, more, htext⟩ := List.exists_cons_of_ne_nil
    (Nat.toDigits_ne_nil (b := 10) (n := number))
  have hc : c.isDigit = true := isDigit_of_mem_toDigits (htext ▸ List.mem_cons_self)
  have hspace : c ≠ ' ' := ne_of_isDigit hc rfl
  have htab : c ≠ '\t' := ne_of_isDigit hc rfl
  rw [htext, beginsWith_cons]
  simp [isSpace, hspace, htab]

/-- A truth value is read back from its word. -/
theorem readValue?_flag (flag : Bool) (rest : List Char) :
    readValue? maxNesting ((if flag then "true" else "false").toList ++ '\n' :: rest) =
      some (.boolean flag, '\n' :: rest) := by
  rw [← Scalar.read?_boolean flag]
  cases flag with
  | true => exact readValue?_word maxNesting (by decide)
  | false => exact readValue?_word maxNesting (by decide)

/-- Attributes are read back from their array. -/
theorem readValue?_attributes (names : List String) (rest : List Char) :
    readValue? maxNesting (renderAttributes names ++ '\n' :: rest) =
      some (.array (names.map .text), '\n' :: rest) := by
  match names with
  | [] => rfl
  | [name] =>
      simp only [renderAttributes, List.cons_append, List.append_assoc, List.nil_append]
      exact readValue?_single 78 name
  | first :: second :: more =>
      simp only [renderAttributes, List.cons_append, List.append_assoc, List.nil_append]
      exact readValue?_elementLines 78 (first :: second :: more)

/-- No carriage return stands in the array of attributes. -/
theorem notMem_return_renderAttributes (names : List String) : '\r' ∉ renderAttributes names := by
  match names with
  | [] => decide
  | [name] =>
      intro h
      simp only [renderAttributes, List.mem_cons, List.mem_append, List.not_mem_nil, or_false] at h
      rcases h with h | h | h
      · cases h
      · exact notMem_return_quote name.toList h
      · cases h
  | first :: second :: more =>
      intro h
      simp only [renderAttributes, List.mem_append, List.mem_flatMap] at h
      rcases h with (h | ⟨name, -, (h | h) | h⟩) | h
      · revert h; decide
      · revert h; decide
      · exact notMem_return_quote name.toList h
      · revert h; decide
      · revert h; decide

/-! ## Lines -/

/-- What the file of a configuration assigns. -/
inductive Field where
  | throttleSize
  | defaultAttributes
  | devicesOnly
  deriving DecidableEq

namespace Field

/-- The key that is assigned to. -/
def key : Field → String
  | throttleSize => throttleKey
  | defaultAttributes => attributesKey
  | devicesOnly => devicesKey

/-- The fields in the order in which they are written. -/
def all : List Field :=
  [throttleSize, defaultAttributes, devicesOnly]

/-- No two fields share a key. -/
theorem key_injective : Function.Injective key := by
  intro left right
  cases left <;> cases right <;> decide

end Field

variable (config : Config)

/-- The throttle size as a plain line. -/
def throttlePlain : PlainLine where
  key := throttleKey
  value := Nat.toDigits 10 config.throttleSize.toNat
  item := .integer config.throttleSize.toNat
  key_ne_nil := by decide
  isKeyCharacter_key := List.all_eq_true.mp rfl
  beginsWith_value := beginsWith_numeral config.throttleSize.toNat
  notMem_value := fun h ↦ ne_of_isDigit (isDigit_of_mem_toDigits h) rfl rfl
  readValue?_value := readValue?_throttleSize config.throttleSize

/-- The default attributes as a plain line. -/
def attributesPlain : PlainLine where
  key := attributesKey
  value := renderAttributes config.defaultAttributes
  item := .array (config.defaultAttributes.map .text)
  key_ne_nil := by decide
  isKeyCharacter_key := List.all_eq_true.mp rfl
  beginsWith_value := by
    match config.defaultAttributes with
    | [] => rfl
    | [_] => rfl
    | _ :: _ :: _ => rfl
  notMem_value := notMem_return_renderAttributes config.defaultAttributes
  readValue?_value := readValue?_attributes config.defaultAttributes

/-- The restriction to devices as a plain line. -/
def devicesPlain : PlainLine where
  key := devicesKey
  value := (if config.devicesOnly then "true" else "false").toList
  item := .boolean config.devicesOnly
  key_ne_nil := by decide
  isKeyCharacter_key := List.all_eq_true.mp rfl
  beginsWith_value := by cases config.devicesOnly <;> rfl
  notMem_value := by cases config.devicesOnly <;> decide
  readValue?_value := readValue?_flag config.devicesOnly

/-- The assignment to a field as a plain line. -/
def plain : Field → PlainLine
  | .throttleSize => config.throttlePlain
  | .defaultAttributes => config.attributesPlain
  | .devicesOnly => config.devicesPlain

/-- The assignment to a field as it is written. -/
def fieldLines : Field → List Char
  | .throttleSize => config.throttleLine
  | .defaultAttributes => config.attributesLine
  | .devicesOnly => config.devicesLine

/-- The text of a file that assigns to these fields what the configuration has in them. -/
def written (fields : List Field) : String :=
  String.ofList (fields.flatMap config.fieldLines)

/-- The file of the configuration assigns to all fields. -/
theorem render_eq : config.render = config.written Field.all := by
  simp [render, written, Field.all, fieldLines]

/-- The text of a file consists of plain lines. -/
theorem written_eq (fields : List Field) : config.written fields =
    String.ofList ((fields.map config.plain).flatMap PlainLine.written) := by
  have hline : config.fieldLines = fun field ↦ (config.plain field).written := by
    funext field
    cases field <;> rfl
  rw [written, List.flatMap_map, hline]

/-- The key of a plain line is that of its field. -/
theorem plain_key (field : Field) : (config.plain field).key = field.key := by
  cases field <;> rfl

/-- The keys of plain lines are those of their fields. -/
theorem map_key_plain (fields : List Field) :
    (fields.map config.plain).map PlainLine.key = fields.map Field.key := by
  simp [plain_key]

/-! ## Reading -/

/-- The number of a throttle size is that throttle size. -/
theorem throttleSize?_integer (size : UInt32) :
    throttleSize? (.integer size.toNat) = some size := by
  have hsize := size.toNat_lt
  have hrange : 0 ≤ (size.toNat : Int) ∧ (size.toNat : Int) < 0x100000000 := by omega
  simp [throttleSize?, hrange]

/-- The texts of an array are attributes. -/
theorem attributeNames?_array (names : List String) :
    attributeNames? (.array (names.map .text)) = some names := by
  induction names with
  | nil => rfl
  | cons name names ih =>
      simp only [attributeNames?] at ih
      simp [attributeNames?, attributeName?, ih]

/-- The configuration of a directory that has the values of this one in some fields, and the
built-in ones in the others. -/
def keeping (root : String) (fields : List Field) : Config where
  root := root
  throttleSize :=
    if .throttleSize ∈ fields then config.throttleSize else (builtIn root).throttleSize
  defaultAttributes :=
    if .defaultAttributes ∈ fields then config.defaultAttributes
    else (builtIn root).defaultAttributes
  devicesOnly := if .devicesOnly ∈ fields then config.devicesOnly else (builtIn root).devicesOnly

/-- A configuration that has its values in all fields is itself. -/
theorem keeping_all : config.keeping config.root Field.all = config := by
  simp [keeping, Field.all]

/-- The value of a field is what is assigned to it, or the built-in value if nothing is. -/
theorem entry?_plain {α : Type} (fields : List Field) (field : Field) (value? : Item → Option α)
    (builtIn : α) :
    entry? ((fields.map config.plain).map fun line ↦ (line.key, line.item)) field.key value?
        builtIn =
      if field ∈ fields then value? (config.plain field).item else some builtIn := by
  have hentries : ((fields.map config.plain).map fun line ↦ (line.key, line.item)) =
      fields.map fun field ↦ (field.key, (config.plain field).item) := by
    simp [plain_key]
  rw [hentries, entry?,
    Entries.find?_map Field.key_injective (fun field ↦ (config.plain field).item) fields field]
  split_ifs
  next => rfl
  next => rfl

/-- What plain lines hold is the configuration with the values of their fields. -/
theorem ofEntries?_plain (root : String) (fields : List Field) :
    ofEntries? root ((fields.map config.plain).map fun line ↦ (line.key, line.item)) =
      some (config.keeping root fields) := by
  have hthrottle := config.entry?_plain fields .throttleSize throttleSize? defaultThrottleSize
  have hattributes :=
    config.entry?_plain fields .defaultAttributes attributeNames? defaultAttributeNames
  have hdevices := config.entry?_plain fields .devicesOnly flag? false
  simp only [Field.key, plain, throttlePlain, attributesPlain, devicesPlain, throttleSize?_integer,
    attributeNames?_array, flag?, ← apply_ite some] at hthrottle hattributes hdevices
  rw [ofEntries?, hthrottle, hattributes, hdevices]
  rfl

/-- Reading a file that assigns to some fields does nothing but check what it leads to. -/
theorem read_written (root : String) {fields : List Field} (h : fields.Nodup) :
    read root (config.written fields) =
      (config.keeping root fields).validate.map fun _ ↦ config.keeping root fields := by
  have hkeys : ((fields.map config.plain).map PlainLine.key).Nodup := by
    rw [map_key_plain]
    exact (List.nodup_map_iff Field.key_injective).mpr h
  have hread : (Toml.read? (config.written fields) >>= ofEntries? root) =
      some (config.keeping root fields) := by
    rw [written_eq, read?_entries _ hkeys, Option.bind_eq_bind, Option.bind_some,
      ofEntries?_plain]
  rw [read, hread]
  show ((config.keeping root fields).validate >>= fun _ ↦ pure (config.keeping root fields)) = _
  cases (config.keeping root fields).validate with
  | error error => rfl
  | ok => rfl

/-- A file that assigns to a field more than once is malformed. -/
theorem read_written_of_not_nodup (root : String) {fields : List Field} (h : ¬ fields.Nodup) :
    read root (config.written fields) = .error (.config .malformed) := by
  have hkeys : ¬ ((fields.map config.plain).map PlainLine.key).Nodup := by
    rw [map_key_plain]
    exact fun hkeys ↦ h ((List.nodup_map_iff Field.key_injective).mp hkeys)
  rw [read, written_eq, read?_eq_none_of_lines _ hkeys]
  rfl

/-- Reading what was written does nothing but check the configuration. -/
theorem read_render :
    read config.root config.render = config.validate.map fun _ ↦ config := by
  have hread := config.read_written config.root (show Field.all.Nodup by decide)
  rwa [← render_eq, keeping_all] at hread

end ModelQuery.Config

import ModelQuery.Config.Basic
import ModelQuery.Toml.Document

/-!
# The file of a configuration

A configuration is kept in a TOML document of three assignments. `Config.render` writes them, and
`Config.read` reads a document: any of the three may be missing, which leaves the built-in value,
and keys that are not among them are ignored.
-/

namespace ModelQuery.Config

/-- The key of the throttle size. -/
def throttleKey : String := "throttle_size"

/-- The key of the default attributes. -/
def attributesKey : String := "default_attrs"

/-- The key of the restriction to devices. -/
def devicesKey : String := "devices_only"

/-- A throttle size is an integer that fits into 32 bits. -/
def throttleSize? : Toml.Item → Option UInt32
  | .integer value =>
      if 0 ≤ value ∧ value < 0x100000000 then some (UInt32.ofNat value.toNat) else none
  | _ => none

/-- An attribute is a text. -/
def attributeName? : Toml.Item → Option String
  | .text value => some value
  | _ => none

/-- Default attributes are an array of texts. -/
def attributeNames? : Toml.Item → Option (List String)
  | .array items => items.mapM attributeName?
  | _ => none

/-- A restriction is a truth value. -/
def flag? : Toml.Item → Option Bool
  | .boolean value => some value
  | _ => none

/-- The value of a key, or the built-in value if the key is missing. A value of the wrong kind is
none. -/
def entry? {α : Type} (entries : Toml.Entries) (key : String) (value? : Toml.Item → Option α)
    (builtIn : α) : Option α :=
  match entries.find? key with
  | some item => value? item
  | none => some builtIn

/-- The configuration that a document holds, for a directory. -/
def ofEntries? (root : String) (entries : Toml.Entries) : Option Config := do
  let throttleSize ← entry? entries throttleKey throttleSize? defaultThrottleSize
  let attributes ← entry? entries attributesKey attributeNames? defaultAttributeNames
  let devicesOnly ← entry? entries devicesKey flag? false
  pure ⟨root, throttleSize, attributes, devicesOnly⟩

/-- The configuration that a text holds, for a directory. It must be well formed and valid. -/
def read (root text : String) : Except Error Config :=
  match Toml.read? text >>= ofEntries? root with
  | none => .error (.config .malformed)
  | some config => do
      config.validate
      pure config

/-- An assignment on a line of its own. -/
def line (key : String) (value : List Char) : List Char :=
  key.toList ++ [' ', '=', ' '] ++ value ++ ['\n']

/-- The attributes as an array: on one line if there is at most one of them, and otherwise one on
each line, indented by four spaces, with a comma after each. -/
def renderAttributes : List String → List Char
  | [] => ['[', ']']
  | [name] => '[' :: (Toml.quote name.toList ++ [']'])
  | names =>
      ['[', '\n'] ++
        names.flatMap (fun name ↦ List.replicate 4 ' ' ++ Toml.quote name.toList ++ [',', '\n']) ++
        [']']

/-- The line of the throttle size. -/
def throttleLine (config : Config) : List Char :=
  line throttleKey (Nat.toDigits 10 config.throttleSize.toNat)

/-- The lines of the default attributes. -/
def attributesLine (config : Config) : List Char :=
  line attributesKey (renderAttributes config.defaultAttributes)

/-- The line of the restriction to devices. -/
def devicesLine (config : Config) : List Char :=
  line devicesKey (if config.devicesOnly then "true" else "false").toList

/-- The text of the file that holds the configuration. -/
def render (config : Config) : String :=
  String.ofList (config.throttleLine ++ config.attributesLine ++ config.devicesLine)

end ModelQuery.Config

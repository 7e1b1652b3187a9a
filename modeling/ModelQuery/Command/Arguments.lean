import ModelQuery.Command.Basic
import ModelQuery.Text.Numeral

/-!
# Command-line arguments

Arguments name a command and give it options and operands in any order. An option is a word after
two hyphens or a letter after one; letters may be bundled, and an option that takes a value takes
the rest of its argument or the next argument. After two hyphens alone everything is an operand.
`Arguments.read` reads the arguments from left to right, and the first thing that settles the
outcome does so: a request for help or for the version, or something that cannot be accepted after
what has been given before it.
-/

namespace ModelQuery.Arguments

/-- Why no command results: the arguments are refused, or they ask for help or for the version. -/
inductive Stop where
  | refused
  | help
  | version
  deriving DecidableEq, Repr

/-- An option without a value. -/
inductive Switch where
  | verbose
  | help
  | version
  | compact
  | devicesOnly
  | force
  deriving DecidableEq, Repr

/-- An option with a value. -/
inductive Setting where
  | attributeName
  | throttle
  deriving DecidableEq, Repr

/-- The letter of an option without a value. -/
def Switch.letter : Switch → Char
  | verbose => 'v'
  | help => 'h'
  | version => 'V'
  | compact => 'c'
  | devicesOnly => 'd'
  | force => 'f'

/-- The word of an option without a value. -/
def Switch.word : Switch → String
  | verbose => "verbose"
  | help => "help"
  | version => "version"
  | compact => "compact"
  | devicesOnly => "devices-only"
  | force => "force"

/-- The letter of an option with a value. -/
def Setting.letter : Setting → Char
  | attributeName => 'a'
  | throttle => 't'

/-- The word of an option with a value. -/
def Setting.word : Setting → String
  | attributeName => "attr"
  | throttle => "throttle"

/-- The commands by name. -/
inductive Verb where
  | parse
  | search
  | attributes
  | resolve
  | operators
  | setUp
  | quickReference
  deriving DecidableEq, Repr

/-- Every verb. -/
def Verb.all : List Verb :=
  [parse, search, attributes, resolve, operators, setUp, quickReference]

/-- The names of a verb, the full one first. -/
def Verb.names : Verb → List String
  | parse => ["parse", "p"]
  | search => ["search", "s"]
  | attributes => ["attrs", "a"]
  | resolve => ["resolve", "r"]
  | operators => ["operators", "ops"]
  | setUp => ["init"]
  | quickReference => ["quick-help", "?"]

/-- The verb with this name. Names are taken literally. -/
def Verb.ofName? (name : String) : Option Verb :=
  all.find? fun verb ↦ verb.names.contains name

/-- What may be given in one place: options without and with a value, and the least and the greatest
number of operands. There may be no greatest number. -/
structure Form where
  switches : List Switch
  settings : List Setting
  least : Nat
  most : Option Nat

/-- What may be given before the verb. -/
def Form.beforeVerb : Form :=
  ⟨[.verbose, .help, .version], [], 0, some 0⟩

/-- What may be given after the verb. -/
def Verb.form : Verb → Form
  | parse => ⟨[.verbose, .help, .compact], [], 0, some 1⟩
  | search =>
      ⟨[.verbose, .help, .compact, .devicesOnly], [.attributeName, .throttle], 0, some 1⟩
  | attributes => ⟨[.verbose, .help], [], 0, some 1⟩
  | resolve => ⟨[.verbose, .help], [], 1, none⟩
  | operators => ⟨[.verbose, .help], [], 0, some 0⟩
  | setUp => ⟨[.verbose, .help, .force], [], 0, some 0⟩
  | quickReference => ⟨[.verbose, .help], [], 0, some 0⟩

/-- The throttle size that a value stands for: decimal digits after an optional sign, from 1 up to
the largest 32-bit word. -/
def throttleSize? (value : String) : Option UInt32 := do
  let (negative, digits) := Text.splitSign value.toList
  if negative || digits.isEmpty then none
  let size := Text.valueOfDigits 10 (← Text.digits? 10 digits)
  if 1 ≤ size ∧ size < 0x100000000 then pure (UInt32.ofNat size) else none

/-- What has been given so far. -/
structure Given where
  switches : List Switch
  attributes : List String
  throttleSize : Option UInt32
  operands : List String
  deriving DecidableEq, Repr

namespace Given

/-- Nothing has been given. -/
def nothing : Given := ⟨[], [], none, []⟩

/-- The option without a value has been given. -/
def has (given : Given) (switch : Switch) : Bool :=
  given.switches.contains switch

/-- Accepts an option without a value, or stops at once if it asks for that. Only the one for more
messages may be given again. -/
def addSwitch (given : Given) : Switch → Except Stop Given
  | .help => .error .help
  | .version => .error .version
  | switch =>
      if given.has switch && switch != .verbose then .error .refused
      else .ok { given with switches := given.switches ++ [switch] }

/-- Accepts an option with its value. Attributes may be given again and again, a throttle size may
not. -/
def addSetting (given : Given) (value : String) : Setting → Except Stop Given
  | .attributeName => .ok { given with attributes := given.attributes ++ [value] }
  | .throttle =>
      match given.throttleSize, throttleSize? value with
      | none, some size => .ok { given with throttleSize := some size }
      | _, _ => .error .refused

/-- Accepts an operand, if the form has room for one more. -/
def addOperand (form : Form) (given : Given) (operand : String) : Except Stop Given :=
  if form.most.all fun most ↦ given.operands.length < most then
    .ok { given with operands := given.operands ++ [operand] }
  else .error .refused

end Given

/-- Accepts an argument of bundled letters. If its last option has its value still to come, that
option is returned beside what has been given. An equals sign between a letter and its value is left
out. -/
def readLetters (form : Form) (given : Given) :
    List Char → Except Stop (Given × Option Setting)
  | [] => .ok (given, none)
  | letter :: rest =>
      match form.switches.find? (·.letter == letter) with
      | some switch => do
          let given ← given.addSwitch switch
          readLetters form given rest
      | none =>
          match form.settings.find? (·.letter == letter), rest with
          | none, _ => .error .refused
          | some setting, [] => .ok (given, some setting)
          | some setting, '=' :: value => do
              pure (← given.addSetting (String.ofList value) setting, none)
          | some setting, value => do
              pure (← given.addSetting (String.ofList value) setting, none)

/-- Accepts an argument of two hyphens and a word. A value stands behind the first equals sign; if
there is none, an option that takes a value has it still to come. -/
def readWord (form : Form) (given : Given) (text : List Char) :
    Except Stop (Given × Option Setting) :=
  let word := String.ofList (text.takeWhile (· != '='))
  match form.switches.find? (·.word == word), form.settings.find? (·.word == word),
    text.dropWhile (· != '=') with
  | some switch, _, [] => do pure (← given.addSwitch switch, none)
  | none, some setting, [] => .ok (given, some setting)
  | none, some setting, _ :: value => do
      pure (← given.addSetting (String.ofList value) setting, none)
  | _, _, _ => .error .refused

/-- How one argument is to be taken: two hyphens alone, an option by its word, options by their
letters, or an operand. A hyphen alone is an operand. -/
inductive Shape where
  | operandsOnly
  | word (text : List Char)
  | letters (text : List Char)
  | operand

/-- How the argument is to be taken. -/
def Shape.of (argument : String) : Shape :=
  match argument.toList with
  | ['-', '-'] => .operandsOnly
  | '-' :: '-' :: text => .word text
  | ['-'] => .operand
  | '-' :: text => .letters text
  | _ => .operand

/-- Accepts an argument that is an option. An option with its value still to come is returned. -/
def readOption (form : Form) (given : Given) : Shape → Except Stop (Given × Option Setting)
  | .word text => readWord form given text
  | .letters text => readLetters form given text
  | _ => .error .refused

/-- Accepts the arguments after the verb. An option with its value still to come takes the next
argument, but only if that is not an option itself. -/
def readRest (form : Form) (given : Given) : Option Setting → List String → Except Stop Given
  | none, [] => .ok given
  | some _, [] => .error .refused
  | some setting, argument :: rest =>
      match Shape.of argument with
      | .operand => do
          let given ← given.addSetting argument setting
          readRest form given none rest
      | _ => .error .refused
  | none, argument :: rest =>
      match Shape.of argument with
      | .operandsOnly => rest.foldlM (Given.addOperand form) given
      | .operand => do
          let given ← given.addOperand form argument
          readRest form given none rest
      | option => do
          let (given, awaiting) ← readOption form given option
          readRest form given awaiting rest

/-- The command of a verb with what has been given to it. -/
def Verb.command (given : Given) : Verb → Command
  | parse => .parse given.operands.head? (given.has .compact)
  | search =>
      .search given.operands.head?
        ⟨given.attributes, given.has .devicesOnly, given.throttleSize⟩ (given.has .compact)
  | attributes => .attributes given.operands.head?
  | resolve => .resolve given.operands
  | operators => .operators
  | setUp => .setUp (given.has .force)
  | quickReference => .quickReference

/-- The command of a verb and the arguments after it. -/
def readCommand (verb : Verb) (arguments : List String) : Except Stop Command := do
  let given ← readRest verb.form .nothing none arguments
  if verb.form.least ≤ given.operands.length then pure (verb.command given) else .error .refused

/-- The name under which help is asked for instead of a command. -/
def helpName : String := "help"

/-- What comes of asking for help by name, with the arguments after that. There is help on the whole
program, on one verb, and on help itself. -/
def readHelp : List String → Stop
  | [] => .help
  | [name] => if name = helpName || (Verb.ofName? name).isSome then .help else .refused
  | _ => .refused

/-- The command that the arguments ask for. -/
def read : List String → Except Stop Command
  | [] => .error .refused
  | argument :: rest =>
      match Shape.of argument with
      | .operandsOnly => .error .refused
      | .operand =>
          if argument = helpName then .error (readHelp rest)
          else
            match Verb.ofName? argument with
            | some verb => readCommand verb rest
            | none => .error .refused
      | option => do
          let _ ← readOption .beforeVerb .nothing option
          read rest

end ModelQuery.Arguments

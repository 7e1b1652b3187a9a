import ModelQuery.Command.Basic
import ModelQuery.Command.Reference
import ModelQuery.Config.Store

/-!
# What commands do

`Command.plan` decides what a command does from what it can see: the environment, the standard
input, and what lies at the path of the configuration file. All a command can do is to answer, or to
save a configuration and answer. `Command.run` carries the plan out on a file tree.

An answer is printed line by line, so that what has been printed before something goes wrong stays
printed (`Reply.ofLines`). Besides errors, which are reported, there is one thing that makes the
program break down: a column whose width is found as the program runs, and is too great
(`Command.column`).
-/

namespace ModelQuery

/-- What can go wrong with an answer: there is an error to report, or the program breaks down. -/
inductive Failure where
  | error (error : Error)
  | breakdown
  deriving DecidableEq, Repr

/-- The answer of a command: what it prints, and what goes wrong at its end, if anything does. -/
structure Reply where
  output : String
  failure : Option Failure
  deriving DecidableEq, Repr

namespace Reply

/-- The answer that prints a text, and nothing else happens. -/
def print (output : String) : Reply := ⟨output, none⟩

/-- The answer that prints nothing and ends with an error. -/
def fail (error : Error) : Reply := ⟨"", some (.error error)⟩

/-- The error to report, if there is one. -/
def error (reply : Reply) : Option Error :=
  match reply.failure with
  | some (.error error) => some error
  | some .breakdown | none => none

/-- The exit code: zero, one if there is an error, and 101 if the program breaks down. -/
def code (reply : Reply) : Nat :=
  match reply.failure with
  | none => 0
  | some (.error _) => 1
  | some .breakdown => 101

/-- The answer that prints what the result says, or ends with its error. -/
def ofResult : Except Error String → Reply
  | .ok output => print output
  | .error error => fail error

/-- The answer that prints lines, one after the other, up to the first in whose place something goes
wrong. -/
def ofLines : List (Except Failure String) → Reply
  | [] => print ""
  | .error failure :: _ => ⟨"", some failure⟩
  | .ok line :: lines =>
      let further := ofLines lines
      ⟨line ++ further.output, further.failure⟩

end Reply

/-- What a command is going to do: answer, or save a configuration and give an answer if that
succeeds. -/
inductive Plan where
  | answer (reply : Reply)
  | save (config : Config) (reply : Reply)

/-- What a command can see: the environment, the standard input, which is nothing if it cannot be
read as text, and what lies at the path of the configuration file. -/
structure Surroundings where
  environment : Environment
  input : Option String
  configFile : FileState

namespace Command

/-- The text with spaces after it up to a width. -/
def pad (width : Nat) (text : String) : String :=
  text ++ String.ofList (List.replicate (width - text.length) ' ')

/-- The greatest width of a column whose width is found as the program runs. -/
def widthLimit : Nat := 65535

/-- A column of a width that is found as the program runs: the text with spaces after it. The
program breaks down if the width is too great. -/
def column (width : Nat) (text : String) : Except Failure String :=
  if width ≤ widthLimit then .ok (pad width text) else .error .breakdown

/-- The greatest length of a text in bytes. -/
def widest (texts : List String) : Nat :=
  texts.foldl (fun width text ↦ max width text.utf8ByteSize) 0

/-- A JSON value on one line or indented, and the end of the line. -/
def printJson (compact : Bool) (value : Json) : String :=
  value.render (if compact then .compact else .indented) ++ "\n"

/-- The expression of a command. One that is missing, or a hyphen, stands for the standard input. -/
def givenExpression (input : Option String) (expression : Option String) : Except Error String :=
  match expression.filter (· != "-"), input with
  | some text, _ => .ok text
  | none, some text => .ok text
  | none, none => .error .access

/-- The command takes its expression from the standard input. -/
def readsInput : Command → Bool
  | .parse expression _ | .search expression _ _ => (expression.filter (· != "-")).isNone
  | _ => false

/-- The filter of an expression as JSON. -/
def printFilter (input : Option String) (expression : Option String) (compact : Bool) :
    Except Error String := do
  let text ← givenExpression input expression
  let filter ← Filter.parse text
  pure (printJson compact filter.toJson)

/-- The options of a search: those of the configuration with what the command line says. -/
def searchOptions (config : Config) (overrides : Overrides) : SearchOptions :=
  let options := (SearchOptions.ofConfig config).adding overrides.attributes
  { options with
    devicesOnly := options.devicesOnly || overrides.devicesOnly
    throttleSize := overrides.throttleSize.getD options.throttleSize }

/-- A search as JSON. The expression is obtained before the configuration is loaded, and read
after. -/
def printSearch (seen : Surroundings) (expression : Option String) (overrides : Overrides)
    (compact : Bool) : Except Error String := do
  let text ← givenExpression seen.input expression
  let root ← Config.locate seen.environment
  let config ← Config.ofFile root seen.configFile
  let search ← Search.parse text (searchOptions config overrides)
  pure (printJson compact search.toJson)

/-- The small letter for a letter that has an ASCII one: the letters A to Z and the Kelvin sign.
Other characters are in no name of the catalogue, in whatever case. -/
def smallLetter (c : Char) : Char :=
  if c = '\u212a' then 'k' else c.toLower

/-- The part stands somewhere in the text. -/
def occursIn (part : List Char) : List Char → Bool
  | [] => part.isEmpty
  | c :: rest => part.isPrefixOf (c :: rest) || occursIn part rest

/-- The catalogued attributes whose names contain a part, in any letter case, or all of them. -/
def matchingAttributes (part : Option String) : List Attribute :=
  Attribute.catalogue.filter fun known ↦
    part.all fun text ↦ occursIn (text.toList.map smallLetter) known.name.toList

/-- The line for an attribute: its name in a column of this width, and its identifier. -/
def attributeLine (width : Nat) (known : Attribute) : Except Failure String := do
  let name ← column width known.name
  pure (name ++ "  " ++ known.id.text ++ "\n")

/-- A line for each matching attribute, as wide as the names need it. -/
def printAttributes (part : Option String) : Reply :=
  let known := matchingAttributes part
  if known.isEmpty then .print "No matching attributes.\n"
  else .ofLines (known.map (attributeLine (widest (known.map Attribute.name))))

/-- The line for a name: the name in a column of this width, its identifier, padded to ten
characters, and the name of the identifier. The name is resolved first. -/
def resolvedLine (width : Nat) (name : String) : Except Failure String := do
  let id ← (AttributeId.resolve name).mapError .error
  let given ← column width name
  pure (given ++ "  " ++ pad 10 id.text ++ "  " ++ id.name ++ "\n")

/-- A line for each name, as wide as all of the names need it, also those without a line. -/
def printResolved (names : List String) : Reply :=
  .ofLines (names.map (resolvedLine (widest names)))

/-- A line for each operator: its symbol, padded to three characters, and its canonical name. -/
def printOperators : String :=
  String.join (Operator.all.map fun operator ↦
    pad 3 operator.symbol ++ " " ++ operator.canonicalName ++ "\n")

/-- What is said after a configuration has been written. -/
def writtenNotice (config : Config) : String :=
  "Config written to " ++ config.path ++ "\n" ++
    "Throttle size: " ++ toString config.throttleSize.toNat ++ "\n" ++
    "Default attributes: " ++ ", ".intercalate config.defaultAttributes ++ "\n"

/-- What is said if there is a configuration already. -/
def presentNotice (config : Config) : String :=
  "Config already exists at " ++ config.path ++ "\n" ++
    "Use --force to overwrite it with defaults\n"

/-- Writes the built-in configuration, unless there is one and it is not to be overwritten. -/
def planSetUp (seen : Surroundings) (force : Bool) : Plan :=
  match Config.locate seen.environment with
  | .error error => .answer (.fail error)
  | .ok root =>
      let config := Config.builtIn root
      if seen.configFile != .absent && !force then .answer (.print (presentNotice config))
      else .save config (.print (writtenNotice config))

/-- What a command is going to do. -/
def plan (seen : Surroundings) : Command → Plan
  | .parse expression compact =>
      .answer (.ofResult (printFilter seen.input expression compact))
  | .search expression overrides compact =>
      .answer (.ofResult (printSearch seen expression overrides compact))
  | .attributes part => .answer (printAttributes part)
  | .resolve names => .answer (printResolved names)
  | .operators => .answer (.print printOperators)
  | .setUp force => planSetUp seen force
  | .quickReference => .answer (.print QuickReference.text)

/-- What a reader finds at the path of the configuration file of an environment. -/
def configFile (tree : FileTree) (environment : Environment) : FileState :=
  match Config.locate environment with
  | .ok root => tree.look (Config.pathIn root)
  | .error _ => .absent

/-- The answer of a command in a file tree, and the file tree after it. -/
def run (tree : FileTree) (environment : Environment) (input : Option String)
    (command : Command) : Reply × FileTree :=
  match command.plan ⟨environment, input, configFile tree environment⟩ with
  | .answer reply => (reply, tree)
  | .save config reply =>
      match config.save tree with
      | (.ok _, tree) => (reply, tree)
      | (.error error, tree) => (.fail error, tree)

end Command

end ModelQuery

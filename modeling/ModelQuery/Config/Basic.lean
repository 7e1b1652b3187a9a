import ModelQuery.Attribute.Resolve
import ModelQuery.Files.Path
import ModelQuery.Search

/-!
# Configurations

A configuration holds the defaults of searches and the directory it belongs to. `Config.validate`
says whether searches can use it, and `Config.locate` finds the directory from the environment.
-/

namespace ModelQuery

/-- The defaults of searches, and the directory in which their file lies. Default attributes are
given by name or literal. -/
structure Config where
  root : String
  throttleSize : UInt32 := defaultThrottleSize
  defaultAttributes : List String := defaultAttributeNames
  devicesOnly : Bool := false
  deriving DecidableEq, Repr

/-- What a program's environment says about where its configuration is: a directory for this
program, a directory for all configurations, the home directory, and the home directory of the
account that the program runs under. -/
structure Environment where
  root : Option String
  configHome : Option String
  home : Option String
  account : Option String
  deriving DecidableEq, Repr

/-- The home directory. The account's one takes the place of one that is not set or empty. -/
def Environment.homeDirectory? (environment : Environment) : Option String :=
  environment.home.filter (· != "") <|> environment.account

/-- The options of a search that a configuration asks for. -/
def SearchOptions.ofConfig (config : Config) : SearchOptions :=
  ⟨config.defaultAttributes, [], config.throttleSize, config.devicesOnly⟩

namespace Config

/-- The name of the file that holds a configuration. -/
def fileName : String := "config.toml"

/-- The path of the file that holds the configuration of a directory. -/
def pathIn (root : String) : String :=
  Path.join root fileName

/-- The path of the file that holds the configuration. -/
def path (config : Config) : String :=
  pathIn config.root

/-- The built-in configuration for a directory. -/
def builtIn (root : String) : Config :=
  ⟨root, defaultThrottleSize, defaultAttributeNames, false⟩

/-- Searches can use the configuration: the throttle size is not zero and every default attribute
resolves. The first attribute that does not is named in the error. -/
def validate (config : Config) : Except Error Unit :=
  if config.throttleSize = 0 then .error (.config .zeroThrottle)
  else
    match AttributeId.resolveAll config.defaultAttributes with
    | .ok _ => .ok ()
    | .error (.unknownAttribute name) => .error (.config (.unknownDefault name))
    | .error error => .error error

/-- The directory of the configuration. One that is set for this program is taken as it is; failing
that, it is in the directory for all configurations, which is one in the home directory unless it is
set to an absolute path. Without a home directory that path does not count; a home that is set but
empty then stands for the working directory. -/
def locate (environment : Environment) : Except Error String :=
  match environment.root, environment.homeDirectory?, environment.home with
  | some root, _, _ => .ok root
  | none, some home, _ =>
      let configHome := environment.configHome.filter Path.isAbsolute
      .ok (Path.join (configHome.getD (Path.join home ".config")) "spectrum-filter")
  | none, none, some home => .ok (Path.join (Path.join home ".config") "spectrum-filter")
  | none, none, none => .error (.config .noHome)

end Config

end ModelQuery

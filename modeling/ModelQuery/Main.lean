import ModelQuery.Command.Invocation
import ModelQuery.Config.Account

/-!
# The command line

Runs the program on the files, the environment and the standard streams of the system. What is to be
done is decided by `Arguments.read` and `Command.plan`.
-/

namespace ModelQuery.Terminal

/-- The home directory of the account that the program runs under. -/
def account : IO (Option String) := do
  try
    let state ← IO.FS.readFile "/proc/self/status"
    let accounts ← IO.FS.readFile "/etc/passwd"
    pure (Account.number? state >>= fun number ↦ Account.home? number accounts)
  catch _ =>
    pure none

/-- The environment variables that say where the configuration is, and the account. -/
def environment : IO Environment := do
  pure ⟨← IO.getEnv "SPECTRUM_FILTER_ROOT", ← IO.getEnv "XDG_CONFIG_HOME", ← IO.getEnv "HOME",
    ← account⟩

/-- The standard input, if it can be read as text. -/
def input : IO (Option String) := do
  try
    pure (String.fromUTF8? (← (← IO.getStdin).readBinToEnd))
  catch _ =>
    pure none

/-- What a reader of text finds at a path. Below something that is no directory there is nothing. -/
def look (path : String) : IO FileState := do
  unless Path.isUsable path do return .absent
  try
    match String.fromUTF8? (← IO.FS.readBinFile path) with
    | some text => pure (.text text)
    | none => pure .unreadable
  catch
    | .noFileOrDirectory .. => pure .absent
    | .inappropriateType _ _ reason =>
        pure (if reason = "not a directory" then .absent else .unreadable)
    | _ => pure .unreadable

/-- Makes a directory. Nothing is done if there is an entry already. -/
def makeDirectory (path : String) : IO Unit := do
  try
    IO.FS.createDir path
  catch
    | .alreadyExists .. => pure ()
    | error => throw error

/-- Writes a configuration to its file, and says whether that succeeded. -/
def save (config : Config) : IO Bool := do
  try
    if Path.isUsable config.root then
      (Path.leading config.root).forM makeDirectory
      if Path.isUsable config.path then
        IO.FS.writeFile config.path config.render
        return true
    return false
  catch _ =>
    return false

/-- Does what a command is going to do. -/
def execute (command : Command) : IO Reply := do
  let environment ← environment
  let input ← if command.readsInput then input else pure none
  let configFile ←
    match Config.locate environment with
    | .ok root => look (Config.pathIn root)
    | .error _ => pure .absent
  match command.plan ⟨environment, input, configFile⟩ with
  | .answer reply => pure reply
  | .save config reply => pure (if ← save config then reply else .fail .access)

end ModelQuery.Terminal

/-- Runs the program with the given arguments and returns its exit code. -/
def main (arguments : List String) : IO UInt32 := do
  let result ←
    match ModelQuery.Arguments.read arguments with
    | .error stop => pure (ModelQuery.Invocation.stopped stop)
    | .ok command => .answered <$> ModelQuery.Terminal.execute command
  IO.print result.output
  match result with
  | .refused => IO.eprintln "error: invalid arguments\n\nFor more information, try '--help'."
  | .answered reply =>
      match reply.failure with
      | some (.error error) => IO.eprintln ("Error: " ++ error.message)
      | some .breakdown => IO.eprintln "The width of a column is out of range."
      | none => pure ()
  pure result.code.toUInt32

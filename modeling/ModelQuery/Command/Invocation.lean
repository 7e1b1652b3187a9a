import ModelQuery.Command.Arguments
import ModelQuery.Command.Plan

/-!
# Runs of the program

`Invocation.run` is one run of the program in a file tree: arguments are read, and the command they
ask for is carried out. `Invocation.runAll` is a sequence of runs, each in the file tree that the
one before leaves behind.
-/

namespace ModelQuery

/-- One run of the program: its arguments, its environment, and its standard input, which is nothing
if it is not text. -/
structure Invocation where
  arguments : List String
  environment : Environment
  input : Option String
  deriving DecidableEq, Repr

/-- How a run ends: its arguments are refused, or it answers. -/
inductive Result where
  | refused
  | answered (reply : Reply)
  deriving DecidableEq, Repr

namespace Result

/-- The exit code: two if the arguments are refused, and otherwise that of the answer. -/
def code : Result → Nat
  | refused => 2
  | answered reply => reply.code

/-- What is printed. -/
def output : Result → String
  | refused => ""
  | answered reply => reply.output

/-- The error at the end of the run. -/
def error? : Result → Option Error
  | refused => none
  | answered reply => reply.error

end Result

namespace Invocation

/-- The name and the version of the program. -/
def versionNotice : String := "sfq 0.1.0\n"

/-- What becomes of arguments that ask for no command. The page that the program generates from its
options for a request for help is left out; the quick reference stands in for it. -/
def stopped : Arguments.Stop → Result
  | .refused => .refused
  | .help => .answered (.print QuickReference.text)
  | .version => .answered (.print versionNotice)

/-- How a run in a file tree ends, and the file tree after it. -/
def run (tree : FileTree) (invocation : Invocation) : Result × FileTree :=
  match Arguments.read invocation.arguments with
  | .error stop => (stopped stop, tree)
  | .ok command =>
      let (reply, tree) := command.run tree invocation.environment invocation.input
      (.answered reply, tree)

/-- How the runs of a sequence end, and the file tree after them. -/
def runAll (tree : FileTree) : List Invocation → List Result × FileTree
  | [] => ([], tree)
  | invocation :: invocations =>
      let (result, tree) := invocation.run tree
      let (results, tree) := runAll tree invocations
      (result :: results, tree)

end Invocation

end ModelQuery

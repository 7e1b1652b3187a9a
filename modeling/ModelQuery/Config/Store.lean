import ModelQuery.Config.Format
import ModelQuery.Files.Tree

/-!
# Loading and saving configurations

`Config.ofFile` is the configuration of a directory, given what lies at the path of its file, and
`Config.load` and `Config.save` apply that to a file tree.
-/

namespace ModelQuery.Config

/-- The configuration of a directory whose file is in this state. Without a file it is the built-in
one. -/
def ofFile (root : String) : FileState → Except Error Config
  | .absent => .ok (builtIn root)
  | .unreadable => .error .access
  | .text value => read root value

/-- There is something at the path of the configuration's file. -/
def isPresent (tree : FileTree) (config : Config) : Bool :=
  tree.look config.path != .absent

/-- The configuration of a directory of a file tree. -/
def load (tree : FileTree) (root : String) : Except Error Config :=
  ofFile root (tree.look (pathIn root))

/-- Writes the configuration to its file, and returns the file tree after that. Nothing is checked
first. -/
def save (tree : FileTree) (config : Config) : Except Error Unit × FileTree :=
  match tree.save config.root fileName (.text config.render) with
  | (true, tree) => (.ok (), tree)
  | (false, tree) => (.error .access, tree)

end ModelQuery.Config

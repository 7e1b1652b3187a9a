import ModelQuery.Files.Path

/-!
# File trees

A file tree held in memory: directories and files under one root, with a working directory from
which relative paths start. `FileTree.look` says what a reader finds at a path, and `FileTree.save`
writes a file and makes the directory it belongs in. There are no symbolic links in a tree, and
entries have no permissions: everything may be read and written.
-/

namespace ModelQuery

/-- What a file holds: text, or bytes that are not the UTF-8 form of any text. -/
inductive Content where
  | text (value : String)
  | binary (bytes : ByteArray)

/-- What a reader of text finds at a path: nothing, something that cannot be read as text, or a
text. -/
inductive FileState where
  | absent
  | unreadable
  | text (value : String)
  deriving DecidableEq, Repr

/-- What a reader of text finds in a file of this content. -/
def Content.state : Content → FileState
  | text value => .text value
  | binary _ => .unreadable

/-- An entry of a file tree. -/
inductive FileNode where
  | directory
  | file (content : Content)

/-- A file tree. Each entry is listed with the names that lead to it from the root, which is a
directory that is always there. -/
structure FileTree where
  entries : List (List String × FileNode)
  workingDirectory : List String

namespace FileTree

/-- The entry at a place that is given by names from the root. -/
def find? (tree : FileTree) (place : List String) : Option FileNode :=
  if place.isEmpty then some .directory
  else (tree.entries.find? fun entry ↦ entry.1 == place).map (·.2)

/-- The tree with the entry at a place replaced or added. -/
def set (tree : FileTree) (place : List String) (node : FileNode) : FileTree :=
  { tree with entries := (place, node) :: tree.entries.filter fun entry ↦ entry.1 != place }

/-- The place from which the names of a path lead on. -/
def start (tree : FileTree) (path : String) : List String :=
  if Path.isAbsolute path then [] else tree.workingDirectory

/-- The place to which names lead from a directory, and the entry there. One point stays where it is
and two points go up; every name but the last must lead to a directory. -/
def follow (tree : FileTree) (current : List String) :
    List String → Option (List String × FileNode)
  | [] => some (current, .directory)
  | name :: rest =>
      if name = "." then tree.follow current rest
      else if name = ".." then tree.follow current.dropLast rest
      else
        match tree.find? (current ++ [name]) with
        | some .directory => tree.follow (current ++ [name]) rest
        | some (.file content) =>
            if rest.isEmpty then some (current ++ [name], .file content) else none
        | none => none

/-- What a reader of text finds at a path. A path that is for a directory does not lead to a
file. -/
def look (tree : FileTree) (path : String) : FileState :=
  if Path.isUsable path then
    match tree.follow (tree.start path) (Path.steps path) with
    | none => .absent
    | some (_, .directory) => .unreadable
    | some (_, .file content) => if Path.isForDirectory path then .absent else content.state
  else .absent

/-- A name that a new entry may have: it fits into 255 bytes, and paths do not read it otherwise. -/
def isPermitted (name : String) : Bool :=
  name.utf8ByteSize ≤ 255 && !(["", ".", ".."].contains name)

/-- The names are made to lead from `current` to a directory: missing directories are made in order.
This fails where a file is in the way, and where a name to be made is not permitted or is followed
by single points only. The tree that is returned has the directories made until then. -/
def makeDirectoriesFrom (tree : FileTree) (current : List String) :
    List String → Bool × FileTree
  | [] => (true, tree)
  | name :: rest =>
      if name = "." then tree.makeDirectoriesFrom current rest
      else if name = ".." then tree.makeDirectoriesFrom current.dropLast rest
      else
        match tree.find? (current ++ [name]) with
        | some .directory => tree.makeDirectoriesFrom (current ++ [name]) rest
        | some (.file _) => (false, tree)
        | none =>
            if isPermitted name && (rest.isEmpty || !rest.all (· == ".")) then
              (tree.set (current ++ [name]) .directory).makeDirectoriesFrom (current ++ [name]) rest
            else (false, tree)

/-- The path is made to lead to a directory, and the result says whether it does. Directories made
before a failure stay. -/
def makeDirectories (tree : FileTree) (path : String) : Bool × FileTree :=
  if Path.isUsable path then tree.makeDirectoriesFrom (tree.start path) (Path.steps path)
  else (false, tree)

/-- The tree with a file of this name and content in a directory that is there. A file of that name
is overwritten; a directory of that name is not. -/
def write (tree : FileTree) (directory name : String) (content : Content) : Option FileTree :=
  match tree.follow (tree.start directory) (Path.steps directory) with
  | some (place, .directory) =>
      match tree.find? (place ++ [name]) with
      | some .directory => none
      | _ =>
          if Path.isUsable (Path.join directory name) && isPermitted name then
            some (tree.set (place ++ [name]) (.file content))
          else none
  | _ => none

/-- A file of this name and content is written in a directory, which is made if it is missing, and
the result says whether that succeeded. Directories made before a failure stay. -/
def save (tree : FileTree) (directory name : String) (content : Content) : Bool × FileTree :=
  match tree.makeDirectories directory with
  | (false, tree) => (false, tree)
  | (true, tree) =>
      match tree.write directory name content with
      | some tree => (true, tree)
      | none => (false, tree)

end FileTree

end ModelQuery

/-!
# Paths

A path is a text of names that slashes separate; it is absolute if it begins with a slash.
`Path.join` appends a name to the path of a directory, `Path.steps` lists the names of a path, and
`Path.leading` lists the directories to be made, one after the other, so that a path leads to one.
-/

namespace ModelQuery.Path

/-- The path begins with a slash. -/
def isAbsolute (path : String) : Bool :=
  path.toList.head? == some '/'

/-- The path can lead somewhere: it is shorter than 4096 bytes and has no NUL character. -/
def isUsable (path : String) : Bool :=
  path.utf8ByteSize < 4096 && !path.toList.contains '\x00'

/-- The path of an entry in a directory. A slash is put between the two unless the directory's path
ends with one; in the directory without a name the entry's name is the whole path. -/
def join (directory name : String) : String :=
  match directory.toList.getLast? with
  | none => name
  | some '/' => directory ++ name
  | some _ => directory ++ "/" ++ name

/-- The parts of a text that slashes separate. There is one more of them than slashes. -/
def split : List Char → List (List Char)
  | [] => [[]]
  | c :: rest =>
      match split rest with
      | [] => []
      | first :: others => if c = '/' then [] :: first :: others else (c :: first) :: others

/-- The names of a path in order. Repeated slashes and a slash at the end make no name. -/
def steps (path : String) : List String :=
  ((split path.toList).filter (!·.isEmpty)).map String.ofList

/-- The path ends with a slash and so can only lead to a directory. -/
def isForDirectory (path : String) : Bool :=
  path.toList.getLast? == some '/'

/-- The paths below a directory that lead to its entries by the first name, the first two, and so
on. Single points at the end are not counted apart from the name before them. -/
def leadingFrom (directory : String) : List String → List String
  | [] => []
  | name :: rest =>
      if rest.all (· == ".") then [rest.foldl join (join directory name)]
      else join directory name :: leadingFrom (join directory name) rest

/-- The paths of the directories through which a path leads, and of the one it leads to at last. -/
def leading (path : String) : List String :=
  leadingFrom (if isAbsolute path then "/" else "") (steps path)

end ModelQuery.Path

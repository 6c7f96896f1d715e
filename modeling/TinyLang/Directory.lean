import TinyLang.Source

/-!
# Directories

A directory in memory, from which files are read by path. Paths are resolved
name by name: a name that is empty or a dot stays where it is, two dots lead to
the directory above, and any other name leads to the file or directory of that
name. Nothing is known of what lies above the directory that paths start from;
it is taken to be empty.
-/

namespace TinyLang

/-- A directory or file in memory. -/
inductive Directory.Node where
  /-- A file with its bytes. -/
  | file (bytes : List UInt8)
  /-- A directory with its entries. -/
  | directory (entries : List (String × Directory.Node))

/-- A directory in memory: what it holds, by name. -/
abbrev Directory := List (String × Directory.Node)

namespace Directory

/-- The number of bytes that a name may have. -/
def maxName : Nat := 255

/-- The number of bytes that a path may have. -/
def maxPath : Nat := 4095

/-- Walks from `node`, below the directories `above`, along names. -/
def walk (above : List Directory) (node : Node) : List String → Except ReadError Node
  | [] => .ok node
  | name :: names =>
    match node with
    | .file _ => .error .notDirectory
    | .directory entries =>
      if name = "" || name = "." then walk above node names
      else if name = ".." then
        match above with
        | [] => walk [] (.directory []) names
        | parent :: above => walk above (.directory parent) names
      else if maxName < name.utf8ByteSize then .error .nameTooLong
      else
        match entries.lookup name with
        | none => .error .notFound
        | some next => walk (entries :: above) next names

/-- The names of a path. -/
def names (path : String) : List String := path.splitOn "/"

/-- What is found at a path. -/
def find (d : Directory) (path : String) : Except ReadError Node :=
  if path.contains '\x00' then .error .nulInPath
  else if path = "" then .error .notFound
  else if maxPath < path.utf8ByteSize then .error .nameTooLong
  else if path.startsWith "/" then walk [] (.directory []) (names path)
  else walk [] (.directory d) (names path)

/-- The text of the file at a path. -/
def readText (d : Directory) (path : String) : Except ReadError String :=
  match d.find path with
  | .error e => .error e
  | .ok (.directory _) => .error .isDirectory
  | .ok (.file bytes) => Source.decode bytes

end Directory

end TinyLang

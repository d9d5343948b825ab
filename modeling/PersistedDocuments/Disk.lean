/-!
# Files and directories

A disk is a tree of files and directories with a working directory in it. Paths are texts whose
parts stand between slashes: an empty part and a dot stay in a directory, two dots leave it, and no
path leads through a file. Names and paths are strings; entries whose names are not valid UTF-8 are
left out of the tree. They have a greatest length, in bytes of UTF-8, and nothing is opened under a
longer path, also if a walk has come upon it.
-/

namespace PersistedDocuments

inductive Node where
  | file (content : ByteArray)
  | directory (entries : List (String × Node))

/-- A file with the path that leads to it. -/
structure File where
  path : String
  content : ByteArray

/-- What a walk through a tree comes upon: a file, or a directory that cannot be opened. -/
inductive Visit where
  | file (file : File)
  | closed (path : String)

/-- The most bytes in the name of an entry. -/
def longestName : Nat := 255

/-- The most bytes in a path. -/
def longestPath : Nat := 4095

/-- Whether something can be opened under a path. -/
def isPath (path : String) : Bool :=
  !path.isEmpty && path.utf8ByteSize ≤ longestPath && !path.toList.contains '\x00'

/-- Whether a directory can have an entry of a name. -/
def isEntryName (name : String) : Bool :=
  name ≠ "" && name ≠ "." && name ≠ ".." && name.utf8ByteSize ≤ longestName

/-- The text of a file that a walk has come upon, if it can be opened and is valid UTF-8. -/
def File.text? (file : File) : Option String :=
  if isPath file.path then String.fromUTF8? file.content else none

/-- The path of an entry of a directory. -/
def joinPath (path name : String) : String :=
  if path.endsWith "/" then path ++ name else path ++ "/" ++ name

namespace Node

def isDirectory : Node → Bool
  | .file _ => false
  | .directory _ => true

def child? : Node → String → Option Node
  | .file _, _ => none
  | .directory entries, name => entries.lookup name

/-- The node that names lead to, one directory after the other. -/
def at? (node : Node) (names : List String) : Option Node :=
  names.foldlM child? node

/-- The entries with one set under its name. -/
def setEntry (entries : List (String × Node)) (name : String) (node : Node) :
    List (String × Node) :=
  match entries with
  | [] => [(name, node)]
  | (other, old) :: rest =>
    if other = name then (name, node) :: rest else (other, old) :: setEntry rest name node

/-- The tree with a node under the names, and with the directories on the way to it. -/
def put (added : Node) : List String → Node → Node
  | [], _ => added
  | name :: names, .directory entries =>
    let inner := (entries.lookup name).getD (.directory [])
    .directory (setEntry entries name (put added names inner))
  | _ :: _, .file content => .file content

mutual
/-- All files at and below a node to which a path leads. The entries of a directory come in the
order of their names, each with everything below it. A directory that cannot be opened comes alone.
-/
def walk (path : String) : Node → List Visit
  | .file content => [.file ⟨path, content⟩]
  | .directory entries =>
    let parts := (entryWalks path entries).mergeSort fun a b => decide (a.1 ≤ b.1)
    if isPath path then parts.flatMap (·.2) else [.closed path]

/-- The names of a directory's entries, each with the walk at and below it. -/
def entryWalks (path : String) : List (String × Node) → List (String × List Visit)
  | [] => []
  | (name, node) :: rest => (name, node.walk (joinPath path name)) :: entryWalks path rest
end

end Node

/-- A tree and the names that lead to the working directory. -/
structure Disk where
  root : Node
  here : List String

namespace Disk

/-- The parts of a path. -/
def parts (path : String) : List String := (path.toList.splitOn '/').map String.ofList

/-- The names to which the parts of a path lead from other names, if there is something. -/
def follow (root : Node) : List String → List String → Option (List String)
  | names, [] => some names
  | names, part :: parts =>
    match root.at? names with
    | some (.directory entries) =>
      if part = "" || part = "." then follow root names parts
      else if part = ".." then follow root names.dropLast parts
      else if (entries.lookup part).isSome then follow root (names ++ [part]) parts
      else none
    | _ => none

/-- Where a path begins: at the root, or in the working directory. -/
def origin (disk : Disk) (path : String) : List String :=
  if path.startsWith "/" then [] else disk.here

/-- The names to which a path leads. -/
def locate? (disk : Disk) (path : String) : Option (List String) :=
  if isPath path then follow disk.root (disk.origin path) (parts path) else none

def find? (disk : Disk) (path : String) : Option Node := do
  disk.root.at? (← disk.locate? path)

/-- The text of a file, if there is one and it is valid UTF-8. -/
def text? (disk : Disk) (path : String) : Option String := do
  match ← disk.find? path with
  | .file content => String.fromUTF8? content
  | .directory _ => none

/-- The names under which a path is written: its last part, in the directory to which the others
lead. That part has to be the name of a file, or one that a new file can have. -/
def target? (disk : Disk) (path : String) : Option (List String) := do
  let parts := parts path
  let name ← parts.getLast?
  if !isPath path || !isEntryName name then failure
  let names ← follow disk.root (disk.origin path) parts.dropLast
  match ← disk.root.at? names with
  | .file _ => failure
  | .directory entries =>
    match entries.lookup name with
    | some (.directory _) => failure
    | _ => return names ++ [name]

/-- The disk with a text in a file, if the path can be written. -/
def write? (disk : Disk) (path text : String) : Option Disk := do
  let names ← disk.target? path
  return { disk with root := Node.put (.file text.toUTF8) names disk.root }

/-- The disk with something under a path that names lead to from the working directory. -/
def install (disk : Disk) (names : List String) (node : Node) : Disk :=
  { disk with root := Node.put node (disk.here ++ names) disk.root }

end Disk

end PersistedDocuments

import PersistedDocuments.Execution

/-!
# Program

The outer layer of the program. It copies the part of the file system that a run looks at into a
disk, lets the run compute on that, and writes what the run has written.
-/

namespace PersistedDocuments

/-- The names to which a path leads where no link stands in its way. -/
def Disk.namesOf (disk : Disk) (path : String) : List String :=
  (Disk.parts path).foldl (fun names part =>
    if part = "" || part = "." then names
    else if part = ".." then names.dropLast
    else names ++ [part]) (disk.origin path)

/-- Copies what a path leads to, without the entries that cannot be read. -/
partial def loadNode (path : String) : IO Node := do
  let real ← IO.FS.realPath path
  if ← real.isDir then
    let entries ← real.readDir
    let nodes ← entries.toList.filterMapM fun entry => do
      try return some (entry.fileName, ← loadNode (joinPath path entry.fileName))
      catch _ => return none
    return .directory nodes
  else return .file (← IO.FS.readBinFile path)

/-- Puts a node on a disk, unless there is something. -/
def Disk.supply (disk : Disk) (path : String) (node : Node) : Disk :=
  let names := disk.namesOf path
  if (disk.root.at? names).isSome then disk
  else { disk with root := Node.put node names disk.root }

/-- Copies the directories on the way to a path. -/
def loadWay (disk : Disk) (path : String) : IO Disk := do
  let parts := Disk.parts path
  let ways := (List.range parts.length).map fun n => "/".intercalate (parts.take (n + 1))
  ways.foldlM (fun disk way => do
    let way : String := if way.isEmpty then "/" else way
    let isDirectory ← try (← IO.FS.realPath way).isDir catch _ => pure false
    if isDirectory then return disk.supply way (.directory []) else return disk) disk

/-- Copies what a path leads to, and the directories on the way. A path that cannot be read leads
nowhere. -/
def load (disk : Disk) (path : String) : IO Disk := do
  try
    let node ← loadNode path
    let disk := { disk with root := Node.put node (disk.namesOf path) disk.root }
    loadWay disk path
  catch _ => loadWay disk path

/-- The disk that a run with the given arguments looks at. -/
def loadDisk (environment : Environment) (texts : List String) : IO Disk := do
  let here := (Disk.parts (← IO.currentDir).toString).filter (· ≠ "")
  let empty : Disk := ⟨Node.put (.directory []) here (.directory []), here⟩
  match Arguments.read environment texts with
  | .error _ => return empty
  | .ok arguments =>
    let disk ← arguments.config.toList.foldlM load empty
    match arguments.settings disk with
    | .error _ => return disk
    | .ok settings => loadWay (← load disk arguments.input) settings.output

end PersistedDocuments

open PersistedDocuments in
def main (texts : List String) : IO UInt32 := do
  let environment : Environment :=
    ⟨← IO.getEnv "EXTRACT_GQL_CONFIG_PATH", ← IO.getEnv "EXTRACT_GQL_LOG"⟩
  let outcome := execute environment texts (← loadDisk environment texts)
  if let some written := outcome.written then IO.FS.writeFile written.path written.text
  IO.print outcome.output
  if !outcome.error.isEmpty then IO.eprintln outcome.error
  return outcome.exitCode.toUInt32

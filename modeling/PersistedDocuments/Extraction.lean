import PersistedDocuments.CommandLine
import PersistedDocuments.Disk
import PersistedDocuments.Embedded.Literal
import PersistedDocuments.Manifest.Builder
import PersistedDocuments.Manifest.Json

/-!
# Extraction

Reading the documents at and below a path and collecting their operations into one manifest. All
texts are joined and read as one document, so that a fragment may stand in another file than the
operation that needs it.
-/

namespace PersistedDocuments

/-- A message for the reader of the log, with named values that belong to it. -/
structure Message where
  level : LogLevel
  text : String
  fields : List (String × String)

/-- Why a run fails. -/
inductive Trouble where
  | missingInput (path : String)
  | unreadable (path : String)
  | badLiterals (path : String) (cause : Failure)
  | badDocuments (input : String) (cause : Failure)
  | unreadableSettings (path : String)
  | badSettings (path : String)
  | unwritable (path : String)

namespace Trouble

def message : Trouble → String
  | .missingInput path => "input path " ++ path ++ " does not exist"
  | .unreadable path => "reading " ++ path
  | .badLiterals path _ => "extracting template literals from " ++ path
  | .badDocuments input _ => "extracting queries from " ++ input
  | .unreadableSettings path => "reading config " ++ path
  | .badSettings path => "parsing config " ++ path
  | .unwritable path => "writing " ++ path

/-- The failure behind the trouble, if there is one. -/
def cause? : Trouble → Option Failure
  | .badLiterals _ cause | .badDocuments _ cause => some cause
  | _ => none

end Trouble

/-- A run writes messages until it ends or fails. -/
abbrev Run := ExceptT Trouble (StateM (List Message))

def Run.log (level : LogLevel) (text : String) (fields : List (String × String) := []) : Run Unit :=
  modify (· ++ [⟨level, text, fields⟩])

/-- The text behind the last dot of a name, unless the name begins with it. -/
def extension? (name : List Char) : Option (List Char) :=
  match name.reverse.dropWhile (· ≠ '.') with
  | _ :: _ :: _ => some (name.reverse.takeWhile (· ≠ '.')).reverse
  | _ => none

/-- The last part of a path. -/
def fileName (path : String) : List Char := (path.toList.reverse.takeWhile (· ≠ '/')).reverse

namespace Settings

/-- Whether a file is read. -/
def selects (settings : Settings) (file : File) : Bool :=
  extension? (fileName file.path) = some settings.extension.toList

/-- The documents in a file. -/
def readFile (settings : Settings) (file : File) : Run String := do
  Run.log .debug "reading file" [("path", file.path)]
  match file.text? with
  | none => throw (.unreadable file.path)
  | some text =>
    if settings.js then
      match Embedded.embeddedText text settings.literalTag with
      | .ok found => return found
      | .error failure => throw (.badLiterals file.path failure)
    else return text

/-- The documents in what a walk comes upon, if it is a file that is read. -/
def readVisit (settings : Settings) : Visit → Run (Option String)
  | .file file => if settings.selects file then some <$> settings.readFile file else return none
  | .closed path => do
    Run.log .warn ("skipping unreadable entry: IO error for operation on " ++ path ++
      ": File name too long (os error 36)")
    return none

/-- The documents in all files at and below a path, a line feed between each two files. -/
def readInput (settings : Settings) (disk : Disk) (input : String) : Run String := do
  match disk.find? input with
  | none => throw (.missingInput input)
  | some node =>
    if node.isDirectory then Run.log .info ("Crawling " ++ input ++ "...")
    let texts ← (node.walk input).mapM settings.readVisit
    return "\n".intercalate (texts.filterMap id)

/-- The manifest of all documents at and below a path. -/
def extract (settings : Settings) (disk : Disk) (input : String) : Run Manifest := do
  let source ← settings.readInput disk input
  match (Builder.new settings.pipeline).addSource source with
  | .ok builder => return builder.manifest
  | .error failure => throw (.badDocuments input failure)

end Settings

/-- The settings of a run: those of the settings file, if there is one, with the arguments on top.
-/
def Arguments.settings (arguments : Arguments) (disk : Disk) : Except Trouble Settings :=
  match arguments.config with
  | none => .ok (arguments.apply .default)
  | some path =>
    match disk.text? path with
    | none => .error (.unreadableSettings path)
    | some text =>
      match Settings.ofToml? text with
      | none => .error (.badSettings path)
      | some settings => .ok (arguments.apply settings)

end PersistedDocuments

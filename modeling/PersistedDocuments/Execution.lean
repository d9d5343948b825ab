import PersistedDocuments.Extraction

/-!
# Execution

A whole run of the program: from arguments, environment and disk to exit code, output and the disk
afterwards. The disk changes only by the manifest that a successful run writes.
-/

namespace PersistedDocuments

namespace LogLevel

/-- The name of a level, right-aligned in five columns. -/
def label : LogLevel → String
  | off => "  OFF"
  | error => "ERROR"
  | warn => " WARN"
  | info => " INFO"
  | debug => "DEBUG"
  | trace => "TRACE"

/-- How much a level lets through. -/
def rank : LogLevel → Nat
  | off => 0
  | error => 1
  | warn => 2
  | info => 3
  | debug => 4
  | trace => 5

end LogLevel

/-- What stands in a message for a character. The control characters that can begin a command to a
terminal are written as their codes. -/
def escapedChar (c : Char) : List Char :=
  if c = '\x07' then "\\x07".toList
  else if c = '\x08' then "\\x08".toList
  else if c = '\x0c' then "\\x0c".toList
  else if c = '\x1b' then "\\x1b".toList
  else if c = '\x7f' then "\\x7f".toList
  else if 0x80 ≤ c.toNat && c.toNat ≤ 0x9F then
    "\\u\x7b".toList ++ Nat.toDigits 16 c.toNat ++ ['\x7d']
  else [c]

/-- The line of a message. The values that belong to it stand behind its text as they are. -/
def Message.line (message : Message) : String :=
  message.level.label ++ " " ++ String.ofList (message.text.toList.flatMap escapedChar) ++
    String.join (message.fields.map fun (name, value) => " " ++ name ++ "=" ++ value) ++ "\n"

/-- The lines of the messages that a level lets through. -/
def LogLevel.lines (level : LogLevel) (messages : List Message) : String :=
  String.join ((messages.filter fun message => message.level.rank ≤ level.rank).map Message.line)

/-- The name and version of the program. -/
def versionText : String := "extract-gql 0.1.0"

/-- The usage line. It stands for the whole text that a request for help and a mistake in the
arguments bring up, of which no more is told here. -/
def usageText : String := "Usage: extract-gql [OPTIONS] <INPUT> [OUTPUT]"

namespace Trouble

/-- The exit code of a run that has failed or broken down. -/
def exitCode : Trouble → Nat
  | .badDocuments _ .breakdown => 101
  | _ => 1

/-- What such a run writes to the error output. -/
def report : Trouble → String
  | .badDocuments _ .breakdown => Failure.breakdown.message
  | trouble => "Error: " ++ trouble.message

end Trouble

/-- A file that a run has written, and the disk with it. -/
structure Written where
  path : String
  text : String
  disk : Disk

/-- What a run leaves behind. -/
structure Outcome where
  exitCode : Nat
  output : String
  error : String
  written : Option Written

/-- The disk after a run on the given one. -/
def Outcome.disk (outcome : Outcome) (before : Disk) : Disk :=
  match outcome.written with
  | some written => written.disk
  | none => before

/-- A run with arguments that are in order. -/
def Arguments.execute (arguments : Arguments) (disk : Disk) : Run Written := do
  Run.log .debug versionText
  let settings ← arguments.settings disk
  if settings.addTypename then Run.log .info "Using the add-typename query transformer."
  let manifest ← settings.extract disk arguments.input
  let text := manifest.write
  match disk.write? settings.output text with
  | none => throw (.unwritable settings.output)
  | some disk =>
    Run.log .info ("Wrote output file to " ++ settings.output ++ ".")
      [("queries", toString manifest.size)]
    return ⟨settings.output, text, disk⟩

/-- A run of the program. Help and mistakes in the arguments print the usage line only; a breakdown
leaves the messages up to it and the disk as it was. -/
def execute (environment : Environment) (texts : List String) (disk : Disk) : Outcome :=
  match Arguments.read environment texts with
  | .error .help => ⟨0, usageText ++ "\n", "", none⟩
  | .error .version => ⟨0, versionText ++ "\n", "", none⟩
  | .error _ => ⟨2, "", usageText, none⟩
  | .ok arguments =>
    let (result, messages) := (arguments.execute disk).run.run []
    let output := arguments.log.lines messages
    match result with
    | .ok written => ⟨0, output, "", some written⟩
    | .error trouble => ⟨trouble.exitCode, output, trouble.report, none⟩

end PersistedDocuments

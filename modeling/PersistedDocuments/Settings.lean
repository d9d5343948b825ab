import PersistedDocuments.Toml.Reader
import PersistedDocuments.Typename

/-!
# Settings

What an extraction reads and writes. A settings file is a TOML text that holds the table `extract`
at most, and that table the five settings at most; a setting that is left out keeps its default. The
table may also be written as the array of the settings in their order.
-/

namespace PersistedDocuments

structure Settings where
  /-- Where the manifest is written. -/
  output : String
  /-- The extension of the files that are read. -/
  extension : String
  /-- Whether documents stand in tagged template literals. -/
  js : Bool
  /-- The tag of those literals. -/
  literalTag : String
  /-- Whether nested selections ask for the type of their object. -/
  addTypename : Bool
  deriving DecidableEq

namespace Settings

open Toml

def default : Settings := ⟨"extracted_queries.json", "graphql", false, "gql", false⟩

/-- The transformers that an extraction applies. -/
def pipeline (settings : Settings) : Pipeline :=
  if settings.addTypename then [.addTypename] else []

/-- The names of the settings in their order. -/
def names : List String := ["output", "extension", "js", "literal_tag", "add_typename"]

/-- Sets one setting, if there is one of the name and the value suits it. -/
def set (settings : Settings) (name : String) (value : Value) : Option Settings :=
  match name, value with
  | "output", .string text => some { settings with output := text }
  | "extension", .string text => some { settings with extension := text }
  | "js", .boolean value => some { settings with js := value }
  | "literal_tag", .string text => some { settings with literalTag := text }
  | "add_typename", .boolean value => some { settings with addTypename := value }
  | _, _ => none

def setAll (settings : Settings) (entries : Entries) : Option Settings :=
  entries.foldlM (fun settings (name, value) => settings.set name value) settings

/-- The settings that the value of `extract` stands for. -/
def ofValue? : Value → Option Settings
  | .table _ entries => default.setAll entries
  | .array items => default.setAll (names.zip items)
  | _ => none

/-- The settings that a text stands for. -/
def ofToml? (text : String) : Option Settings := do
  match ← Toml.read? text with
  | [] => return default
  | [("extract", value)] => ofValue? value
  | _ => failure

end Settings

end PersistedDocuments

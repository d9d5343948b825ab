import PersistedDocuments.GraphQL.Printer
import PersistedDocuments.Json.QueryId
import PersistedDocuments.Manifest.Basic

/-!
# Manifests in JSON

A manifest is an object with a record for each key: the identifier, and the printed document. A
record may also be the array of the two. Where a key stands twice, the later record counts, in the
place of the earlier one.
-/

namespace PersistedDocuments

open GraphQL Json

/-- What is written for an entry under its key. -/
def Entry.toJson (entry : Entry) : Json.Value :=
  .object [("id", entry.id.toJson), ("transformedQuery", .string entry.document.print)]

/-- The parts of a record that have been read. -/
structure RecordParts where
  id : Option QueryId
  document : Option Document

namespace RecordParts

/-- A document inside a string. A text with a token that does not fit is of the wrong shape. -/
def document? : Decoder Document := do
  match Document.parse (← Decoder.text) with
  | .ok document => return document
  | .error (.token _) => throw .mismatched
  | .error .tornString => throw .breakdown

/-- Reads a member of a record; other members than the two are passed over. -/
def member (depth : Nat) (parts : RecordParts) : Decoder RecordParts := do
  match ← Decoder.name with
  | "id" => return { parts with id := ← Decoder.once parts.id (QueryId.decoder depth) }
  | "transformedQuery" =>
    return { parts with document := ← Decoder.once parts.document document? }
  | _ =>
    Decoder.symbol ':'
    Decoder.skip
    return parts

/-- The entry under a key that the parts make. -/
def entry (key : String) (parts : RecordParts) : Decoder Entry := do
  return ⟨key, ← Decoder.require parts.id, ← Decoder.require parts.document⟩

end RecordParts

/-- Reads the record under a key. -/
def Entry.decoder (depth : Nat) (key : String) : Decoder Entry := do
  match ← Decoder.peek with
  | some '[' =>
    Decoder.drop
    let id ← Decoder.require (← Decoder.place true (QueryId.decoder depth))
    let document ← Decoder.require (← Decoder.place false RecordParts.document?)
    Decoder.symbol ']'
    return ⟨key, id, document⟩
  | some '{' =>
    Decoder.drop
    let parts ← Decoder.fold '}' (RecordParts.member depth) ⟨none, none⟩
    parts.entry key
  | _ => Decoder.wrongShape

namespace Manifest

def toJson (manifest : Manifest) : Json.Value :=
  .object (manifest.entries.map fun entry => (entry.key, entry.toJson))

/-- The text of a manifest. -/
def write (manifest : Manifest) : String := manifest.toJson.write

/-- Reads a member of a manifest's object. The object and the record take two brackets. -/
def member (manifest : Manifest) : Decoder Manifest := do
  let key ← Decoder.name
  Decoder.symbol ':'
  return manifest.set (← Entry.decoder (Decoder.nestingLimit - 2) key)

def decoder : Decoder Manifest := do
  match ← Decoder.peek with
  | some '{' =>
    Decoder.drop
    Decoder.fold '}' member .empty
  | _ => Decoder.wrongShape

/-- The manifest that a text stands for. -/
def read (s : String) : Except Failure Manifest := (decoder.run s).mapError .json

end Manifest

end PersistedDocuments

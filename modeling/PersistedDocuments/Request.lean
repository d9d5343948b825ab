import PersistedDocuments.Failure
import PersistedDocuments.Json.QueryId

/-!
# Requests

A request asks for a query, given by its text or by its identifier, with variables and the name of
an operation, which are passed on untouched. Null stands for an absent part.
-/

namespace PersistedDocuments

open Json

/-- A request; `subject` is what it asks for. -/
structure Request (α : Type) where
  subject : α
  variableValues : Option Value
  operationName : Option String

/-- A request that carries the text of its query. -/
abbrev FullRequest := Request String

/-- A request that carries the identifier of its query. -/
abbrev PersistedRequest := Request QueryId

namespace Request

variable {α : Type}

/-- The JSON form of a request, whose subject stands under the given name. -/
def toJson (name : String) (subject : α → Value) (request : Request α) : Value :=
  .object <|
    (name, subject request.subject) ::
      (request.variableValues.map fun value => ("variables", value)).toList ++
      (request.operationName.map fun text => ("operationName", .string text)).toList

/-- The parts of a request that have been read; null is a part that has been read. -/
structure Parts (α : Type) where
  subject : Option α
  variableValues : Option (Option Value)
  operationName : Option (Option String)

/-- Reads a member of a request; other members than the three are passed over. -/
def member (name : String) (subject : Decoder α) (depth : Nat) (parts : Parts α) :
    Decoder (Parts α) := do
  let found ← Decoder.name
  if found = name then
    return { parts with subject := ← Decoder.once parts.subject subject }
  else if found = "variables" then
    let item := Decoder.orNull (Decoder.value depth)
    return { parts with variableValues := ← Decoder.once parts.variableValues item }
  else if found = "operationName" then
    let item := Decoder.orNull Decoder.text
    return { parts with operationName := ← Decoder.once parts.operationName item }
  else
    Decoder.symbol ':'
    Decoder.skip
    return parts

/-- Reads a request, an object or the array of its parts. -/
def decoder (name : String) (subject : Nat → Decoder α) (depth : Nat) : Decoder (Request α) := do
  match ← Decoder.peek with
  | some '[' =>
    Decoder.drop
    let first ← Decoder.require (← Decoder.place true (subject depth))
    let second ← Decoder.place false (Decoder.orNull (Decoder.value depth))
    let third ← Decoder.place false (Decoder.orNull Decoder.text)
    Decoder.symbol ']'
    return ⟨first, second.join, third.join⟩
  | some '{' =>
    Decoder.drop
    let parts ← Decoder.fold '}' (member name (subject depth) depth) ⟨none, none, none⟩
    return ⟨← Decoder.require parts.subject, parts.variableValues.join, parts.operationName.join⟩
  | _ => Decoder.wrongShape

end Request

namespace FullRequest

def toJson (request : FullRequest) : Value := Request.toJson "query" .string request

def read (s : String) : Except Failure FullRequest :=
  let decoder := Request.decoder "query" (fun _ => Decoder.text) (Decoder.nestingLimit - 1)
  (decoder.run s).mapError .json

end FullRequest

namespace PersistedRequest

def toJson (request : PersistedRequest) : Value := Request.toJson "id" QueryId.toJson request

def read (s : String) : Except Failure PersistedRequest :=
  let decoder := Request.decoder "id" QueryId.decoder (Decoder.nestingLimit - 1)
  (decoder.run s).mapError .json

end PersistedRequest

end PersistedDocuments

import PersistedDocuments.Json.Decoder
import PersistedDocuments.Json.Writer
import PersistedDocuments.QueryId

/-!
# Identifiers in JSON

An identifier is an integer below `QueryId.limit` or a string.
-/

namespace PersistedDocuments.QueryId

open Json

def toJson : QueryId → Value
  | .number n => .int n
  | .text s => .string s

/-- The identifier that a value stands for. -/
def ofJson? : Value → Option QueryId
  | .int (.ofNat n) => if n < limit then some (.number n) else none
  | .string s => some (.text s)
  | _ => none

/-- Reads any value first, and then asks whether it is an identifier. -/
def decoder (depth : Nat) : Decoder QueryId := do
  Decoder.require (ofJson? (← Decoder.value depth))

def read (s : String) : Except Problem QueryId := (decoder Decoder.nestingLimit).run s

end PersistedDocuments.QueryId

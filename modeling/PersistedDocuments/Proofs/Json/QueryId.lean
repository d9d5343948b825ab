import PersistedDocuments.Json.QueryId
import PersistedDocuments.Manifest.Basic
import PersistedDocuments.Proofs.Json.Reading

/-!
# Identifiers on the wire

An identifier that fits 64 bits, or that is a text, is read back from its JSON form.
-/

namespace PersistedDocuments

open Json

/-- Every number among the identifiers is one that the wire format can carry. -/
def Manifest.IdsFit (manifest : Manifest) : Prop :=
  ∀ entry ∈ manifest.entries, ∀ n, entry.id = .number n → n < QueryId.limit

/-- Identifiers fit when they are given numbers that do. -/
theorem Manifest.idsFit_of_ids {manifest : Manifest} (numbers : List Nat)
    (small : ∀ n ∈ numbers, n < QueryId.limit)
    (ids : manifest.entries.map Entry.id = numbers.map .number) : manifest.IdsFit := by
  intro entry present n same
  have among : entry.id ∈ numbers.map QueryId.number := ids ▸ List.mem_map_of_mem present
  rw [same] at among
  rcases List.mem_map.1 among with ⟨m, member, sameNumber⟩
  exact QueryId.number.inj sameNumber ▸ small m member

namespace QueryId

variable {id : QueryId}

/-- An identifier that fits is read back from its JSON value. -/
theorem ofJson?_toJson (fits : ∀ n, id = .number n → n < limit) : ofJson? id.toJson = some id := by
  cases id with
  | number n => exact if_pos (fits n rfl)
  | text s => rfl

/-- An identifier that fits is read back from its written form. -/
theorem decoder_chars (fits : ∀ n, id = .number n → n < limit) (depth : Nat) {rest : List Char}
    (ends : Number.Ends rest) : decoder depth (id.toJson.chars ++ rest) = .ok (id, rest) := by
  have value : Decoder.value depth (id.toJson.chars ++ rest) = .ok (id.toJson, rest) := by
    cases id with
    | number n => exact Decoder.value_digitChars depth (fits n rfl) ends
    | text s => exact Decoder.value_encode depth s rest
  rw [decoder, Decoder.bind_eq value, ofJson?_toJson fits]
  rfl

end QueryId

end PersistedDocuments

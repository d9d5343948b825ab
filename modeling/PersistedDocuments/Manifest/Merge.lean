import PersistedDocuments.Manifest.Basic

/-!
# Merging manifests

Manifests that were numbered independently are brought into one numbering: the queries of the second
that the first does not know get the numbers that follow the largest one of the first. Since
identifiers are compared by their texts, a number whose text is in use is passed over.
-/

namespace PersistedDocuments

/-- The least number from `n` on whose text is not taken. -/
def freeNumber (taken : List String) (n : Nat) : Nat :=
  let text := (QueryId.number n).toText
  if text ∈ taken then freeNumber (taken.erase text) (n + 1) else n
termination_by taken.length
decreasing_by
  rw [List.length_erase_of_mem ‹_›]
  exact Nat.sub_lt (List.length_pos_of_mem ‹_›) Nat.one_pos

namespace Manifest

/-- The identifier that an entry of another manifest gets. -/
def nextId (manifest : Manifest) : QueryId :=
  .number (freeNumber manifest.idTexts (manifest.maxNumber + 1))

/-- Takes over an entry of another manifest under a new identifier, unless its key is known. -/
def adopt (manifest : Manifest) (entry : Entry) : Manifest :=
  manifest.add { entry with id := manifest.nextId }

/-- The first manifest with those entries of the second whose keys it does not have. -/
def merge (a b : Manifest) : Manifest := b.entries.foldl adopt a

end Manifest

end PersistedDocuments

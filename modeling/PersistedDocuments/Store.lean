import PersistedDocuments.GraphQL.Printer
import PersistedDocuments.Manifest.Basic

/-!
# Stores

A store gives the text of a query back for its identifier. Identifiers are compared by their texts,
so that the number 1 and the text `1` are the same.
-/

namespace PersistedDocuments

/-- Printed queries under the texts of their identifiers, which are distinct. -/
structure Store where
  queries : List (String × String)
  distinct : (queries.map Prod.fst).Nodup

namespace Store

def empty : Store := ⟨[], List.nodup_nil⟩

def size (store : Store) : Nat := store.queries.length

def isEmpty (store : Store) : Bool := store.queries.isEmpty

/-- Adds the query of a manifest's entry, unless its identifier is in use. -/
def add (store : Store) (entry : Entry) : Except Failure Store :=
  if known : entry.id.toText ∈ store.queries.map Prod.fst then .error (.duplicateId entry.id)
  else .ok
    { queries := (entry.id.toText, entry.document.print) :: store.queries
      distinct := List.nodup_cons.2 ⟨known, store.distinct⟩ }

/-- The queries of a manifest; the first entry whose identifier an earlier one has is refused. -/
def ofManifest (manifest : Manifest) : Except Failure Store := manifest.entries.foldlM add empty

/-- The query with the given identifier. -/
def fetch (store : Store) (id : QueryId) : Except Failure String :=
  match store.queries.lookup id.toText with
  | some query => .ok query
  | none => .error (.unknownId id)

end Store

end PersistedDocuments

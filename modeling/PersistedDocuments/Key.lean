import PersistedDocuments.Reduction
import PersistedDocuments.Transformer

/-!
# Keys

The key of a query is the canonical text of its transformed document. Formatting, the order of
fragments and fragments that are not used leave it unchanged.
-/

namespace PersistedDocuments.Pipeline

open GraphQL

/-- The key of a document that holds one operation and the fragments it needs. -/
def documentKey (pipeline : Pipeline) (document : Document) : Except Failure String := do
  return (← pipeline.run document).canonicalKey

/-- The key of an operation without any fragments. -/
def operationKey (pipeline : Pipeline) (operation : Operation) : Except Failure String := do
  let transformed ← pipeline.run (.ofOperation operation)
  return Document.print ⟨transformed.definitions.take 1⟩

/-- The key of a document sent with a request. It must hold one operation; fragments that this does
not need are ignored. -/
def requestKey (pipeline : Pipeline) (document : Document) : Except Failure String :=
  match document.operations with
  | [] => .error .missingOperation
  | [operation] => do pipeline.documentKey (← document.reduce operation)
  | several => .error (.multipleOperations several.length)

end PersistedDocuments.Pipeline

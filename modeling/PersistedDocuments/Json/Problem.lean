/-!
# What is wrong with a JSON text

The first problem met from the left decides: the text breaks the grammar, ends too early, holds a
value of another shape than the one expected, or holds a document at which the reader of documents
breaks down.
-/

namespace PersistedDocuments.Json

inductive Problem where
  | malformed
  | truncated
  | mismatched
  | breakdown
  deriving DecidableEq, Repr

end PersistedDocuments.Json

import PersistedDocuments.Failure

/-!
# Transformers

Changes to documents, made one after the other before a key is computed.
-/

namespace PersistedDocuments

open GraphQL

/-- A named change to documents, which may refuse one. -/
structure Transformer where
  name : String
  run : Document → Except Failure Document

/-- Transformers in the order in which they are applied. -/
abbrev Pipeline := List Transformer

/-- The document after all transformers; the first refusal ends the run. -/
def Pipeline.run (pipeline : Pipeline) (document : Document) : Except Failure Document :=
  pipeline.foldlM (fun document transformer => transformer.run document) document

/-- The names of the transformers in quotes, between brackets. -/
def Pipeline.describe (pipeline : Pipeline) : String :=
  "[" ++ ", ".intercalate (pipeline.map fun transformer => "\"" ++ transformer.name ++ "\"") ++ "]"

end PersistedDocuments

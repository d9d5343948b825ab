import PersistedDocuments.Key
import PersistedDocuments.Manifest.Basic
import PersistedDocuments.Text.Blank

/-!
# Building manifests

A builder collects the operations of documents and numbers new keys from one on. A document is added
as a whole or not at all.
-/

namespace PersistedDocuments

open GraphQL

/-- The operations of a document after the pipeline, each reduced to a document of its own. -/
def Pipeline.reductions (pipeline : Pipeline) (document : Document) :
    Except Failure (List Document) := do
  let transformed ← pipeline.run document
  transformed.operations.mapM transformed.reduce

structure Builder where
  pipeline : Pipeline
  /-- The number given last. -/
  last : Nat
  manifest : Manifest

namespace Builder

/-- A builder that has collected nothing. -/
def new (pipeline : Pipeline) : Builder := ⟨pipeline, 0, .empty⟩

/-- Adds a reduced document under the next number, unless its key is known. -/
def addReduced (builder : Builder) (document : Document) : Builder :=
  let key := document.canonicalKey
  if known : key ∈ builder.manifest.keys then builder
  else
    let entry : Entry := ⟨key, .number (builder.last + 1), document⟩
    { builder with
      last := builder.last + 1
      manifest := builder.manifest.push entry known }

/-- Adds every operation of a document. -/
def addDocument (builder : Builder) (document : Document) : Except Failure Builder := do
  return (← builder.pipeline.reductions document).foldl addReduced builder

/-- Adds every operation of the document that a text stands for. A blank text adds nothing. -/
def addSource (builder : Builder) (source : String) : Except Failure Builder := do
  if Text.allBlank source.toList then return builder
  else builder.addDocument (← readDocument source)

end Builder

/-- The manifest of a single document. -/
def Manifest.ofDocument (pipeline : Pipeline) (document : Document) : Except Failure Manifest := do
  return (← (Builder.new pipeline).addDocument document).manifest

end PersistedDocuments

import PersistedDocuments.GraphQL.Grammar
import PersistedDocuments.Json.Problem
import PersistedDocuments.QueryId

/-!
# Failures

The reasons for which reading, transforming, keying, storing or resolving a document fails, and
their wording.
-/

namespace PersistedDocuments

inductive Failure where
  /-- The text is not an executable document; the first token that does not fit stands here. -/
  | unreadable (pos : GraphQL.Pos)
  /-- The text holds a torn string in the place of a value. No error is returned for it: the program
  breaks down. -/
  | breakdown
  /-- A spread names a fragment that the document does not define. -/
  | missingFragment (name : String)
  /-- A document that should hold one operation holds this many. -/
  | multipleOperations (count : Nat)
  /-- A document holds fragments only. -/
  | missingOperation
  /-- A transformer refused the document. -/
  | refused (transformer message : String)
  /-- No query of the manifest has the key. -/
  | unknownKey
  /-- No query of the store has the identifier. -/
  | unknownId (id : QueryId)
  /-- Two queries of a manifest have identifiers with the same text. -/
  | duplicateId (id : QueryId)
  /-- A request by identifier reached a resolver that is switched off. -/
  | disabled
  /-- The tag of template literals is too long to search for. -/
  | tagTooLong
  /-- A JSON text cannot be read. -/
  | json (problem : Json.Problem)
  deriving DecidableEq

namespace Failure

/-- The wording of a failure. A breakdown has none of its own; its words here say what happens. -/
def message : Failure → String
  | .unreadable pos => s!"query parse error: Parse error at {pos.line}:{pos.column}"
  | .breakdown | .json .breakdown => "a block string was cut inside a character"
  | .missingFragment name =>
    "fragment `" ++ name ++ "` is used but not defined in the document"
  | .multipleOperations count =>
    "expected a single operation per document, found " ++ toString count
  | .missingOperation => "the document does not contain any operation"
  | .refused transformer message =>
    "query transformer `" ++ transformer ++ "` failed: " ++ message
  | .unknownKey => "could not find query inside query map"
  | .unknownId id => "could not find a query with id `" ++ id.toText ++ "`"
  | .duplicateId id => "the id `" ++ id.toText ++ "` is used by more than one query"
  | .disabled => "persisted queries are disabled"
  | .tagTooLong => "invalid template literal tag"
  | .json _ => "persisted map serialization"

end Failure

/-- How reading a document fails. -/
def Failure.ofObstacle : GraphQL.Obstacle → Failure
  | .token pos => .unreadable pos
  | .tornString => .breakdown

/-- Reads a document; the failure tells the place of the first token that does not fit. -/
def readDocument (text : String) : Except Failure GraphQL.Document :=
  (GraphQL.Document.parse text).mapError .ofObstacle

end PersistedDocuments

import PersistedDocuments.Key
import PersistedDocuments.Manifest.Basic
import PersistedDocuments.Request

/-!
# Clients

A client sends the identifier of a query in the place of its text. It looks the query up by its key,
so that its pipeline has to make the same documents as the one that the manifest was built with.
-/

namespace PersistedDocuments

structure Client where
  manifest : Manifest
  pipeline : Pipeline
  enabled : Bool

/-- What a client sends: the identifier, or the full request if it is switched off. -/
inductive Outgoing where
  | persisted (request : PersistedRequest)
  | full (request : FullRequest)

def Outgoing.toJson : Outgoing → Json.Value
  | .persisted request => PersistedRequest.toJson request
  | .full request => FullRequest.toJson request

namespace Client

/-- The identifier of the query that a text stands for. -/
def queryId (client : Client) (query : String) : Except Failure QueryId := do
  let key ← client.pipeline.requestKey (← readDocument query)
  return (← client.manifest.lookup key).id

/-- Replaces the text of a request's query by its identifier. -/
def prepare (client : Client) (request : FullRequest) : Except Failure Outgoing := do
  if client.enabled then
    return .persisted { request with subject := ← client.queryId request.subject }
  else return .full request

end Client

end PersistedDocuments
